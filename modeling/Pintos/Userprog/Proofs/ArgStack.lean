import Pintos.Userprog.ArgStack
import Pintos.Userprog.Proofs.Syscall

/-!
# Arguments on the stack

A store below `esp` leaves what was pushed before. So the words and the strings that
`start_process` pushes are all there in the end, and the strings lie above the words, unless a store
ends the process. This happens if they do not fit into the page of `setup_stack`, which a command
line that `exec_` takes need not do, and the program has no page below it.
-/

namespace Pintos

open List Option

theorem parseArguments_eq (fileName : List Byte) :
    parseArguments fileName = (spaceTokens fileName).take argvMax := strtokLoop_eq argvMax fileName

namespace UserStack

variable {s s' s'' : UserStack} {a m n w : Nat} {bytes : List Byte} {pages : Nat → Bool}

/-- `n` bytes were pushed. -/
structure Pushed (s s' : UserStack) (n : Nat) : Prop where
  esp : s'.esp + n = s.esp
  image : ∀ a, a < s'.esp ∨ s.esp ≤ a → s'.image a = s.image a
  writable : s'.writable = s.writable
  stored : ∀ a, s'.image a ≠ none → s.image a ≠ none ∨ s.writable (a / pgSize) = true

/-- The process is ended within the `n` bytes below `esp`. -/
structure Faults (s : UserStack) (n a : Nat) : Prop where
  low : s.esp ≤ a + n
  high : a < s.esp
  missing : s.writable (a / pgSize) = false

theorem Pushed.refl (s : UserStack) : Pushed s s 0 := ⟨rfl, fun _ _ => rfl, rfl, fun _ => .inl⟩

theorem Pushed.trans (first : Pushed s s' m) (second : Pushed s' s'' n) : Pushed s s'' (n + m) where
  esp := by
    have := first.esp
    have := second.esp
    omega
  image a outside := by
    have := first.esp
    have := second.esp
    rw [second.image a (by omega), first.image a (by omega)]
  writable := second.writable.trans first.writable
  stored a some? := (second.stored a some?).elim (first.stored a) fun writable =>
    .inr (first.writable ▸ writable)

theorem Pushed.faults (pushed : Pushed s s' m) (faults : Faults s' n a) : Faults s (n + m) a where
  low := by
    have := pushed.esp
    have := faults.low
    omega
  high := by
    have := pushed.esp
    have := faults.high
    omega
  missing := pushed.writable ▸ faults.missing

theorem Faults.mono (faults : Faults s m a) (le : m ≤ n) : Faults s n a :=
  ⟨faults.low.trans (by omega), faults.high, faults.missing⟩

theorem Holds.pushed (holds : s.Holds a bytes) (pushed : Pushed s s' n) (above : s.esp ≤ a) :
    s'.Holds a bytes := by
  intro j small
  rw [pushed.image _ (.inr (by omega)), holds j small]

/-- A store ends the process, or the bytes are there afterwards. -/
theorem push_cases (bytes : List Byte) (room : bytes.length ≤ s.esp) :
    (∃ a, s.push bytes = .error a ∧ Faults s bytes.length a) ∨
      ∃ s', s.push bytes = .ok s' ∧ Pushed s s' bytes.length ∧ s'.Holds s'.esp bytes := by
  unfold push
  dsimp only
  cases found : (range' (s.esp - bytes.length) bytes.length).find?
      fun a => !s.writable (a / pgSize) with
  | some a =>
    have inside := mem_range'_1.mp (mem_of_find?_eq_some found)
    exact .inl ⟨a, rfl, by omega, by omega, by simpa using find?_some found⟩
  | none =>
    refine .inr ⟨_, rfl, ⟨Nat.sub_add_cancel room, fun a outside => if_neg ?_, rfl,
      fun a some? => ?_⟩, ?_⟩
    · dsimp only at outside
      omega
    · by_cases inside : s.esp - bytes.length ≤ a ∧ a < s.esp
      · have writable := find?_eq_none.mp found a (mem_range'_1.mpr (by omega))
        exact .inr (by simpa using writable)
      · exact .inl fun absent => some? ((if_neg inside).trans absent)
    · intro j small
      dsimp only
      rw [if_pos (by omega), Nat.add_sub_cancel_left]

theorem roundDown_pushed : Pushed s s.roundDown (s.esp % 4) where
  esp := by
    simp only [roundDown]
    omega
  image _ _ := rfl
  writable := rfl
  stored _ := .inl

theorem Holds.word (holds : s.Holds a (wordBytes w)) (fits : w < 2 ^ 32) : s.word a = some w := by
  have b0 := holds 0 (by simp [wordBytes])
  have b1 := holds 1 (by simp [wordBytes])
  have b2 := holds 2 (by simp [wordBytes])
  have b3 := holds 3 (by simp [wordBytes])
  simp only [wordBytes, Nat.add_zero, getElem?_cons_zero, getElem?_cons_succ] at b0 b1 b2 b3
  simp only [UserStack.word, b0, b1, b2, b3, bind_eq_bind, bind_some,
    BitVec.toNat_ofNat, some.injEq]
  omega

/-- The strings, each with a null byte at its end, lie between the two values of `esp`. -/
theorem pushStrings_cases (args : List (List Byte)) (room : (args.map (·.length + 1)).sum ≤ s.esp) :
    (∃ a, s.pushStrings args = .error a ∧ Faults s (args.map (·.length + 1)).sum a) ∨
      ∃ ptrs s', s.pushStrings args = .ok (ptrs, s') ∧
        Pushed s s' (args.map (·.length + 1)).sum ∧ ptrs.length = args.length ∧
        ∀ (i : Nat) p arg, ptrs[i]? = some p → args[i]? = some arg →
          s'.Holds p (arg ++ [0]) ∧ s'.esp ≤ p ∧ p + arg.length + 1 ≤ s.esp := by
  induction args with
  | nil => exact .inr ⟨[], s, rfl, .refl s, rfl, nofun⟩
  | cons arg rest ih =>
    simp only [map_cons, sum_cons] at room ⊢
    unfold pushStrings
    obtain ⟨a, run, faults⟩ | ⟨ptrs, s', run, pushed, length, strings⟩ := ih (by omega)
    · exact .inl ⟨a, by rw [run]; rfl, faults.mono (Nat.le_add_left ..)⟩
    rw [run]
    have below := pushed.esp
    obtain ⟨a, run, faults⟩ | ⟨s'', run, next, holds⟩ := push_cases (s := s') (arg ++ [0])
      (by simp only [length_append, length_singleton]; omega)
    · exact .inl ⟨a, by simp only [bind, Except.bind, run], by simpa using pushed.faults faults⟩
    have all := pushed.trans next
    have nextEsp := next.esp
    simp only [length_append, length_singleton] at all nextEsp
    refine .inr ⟨s''.esp :: ptrs, s'', by simp only [bind, Except.bind, run], all,
      congrArg (· + 1) length, ?_⟩
    intro i p arg' isPtr isArg
    cases i with
    | zero =>
      cases isPtr
      cases isArg
      exact ⟨holds, Nat.le_refl _, by omega⟩
    | succ i =>
      obtain ⟨holds, low, high⟩ := strings i p arg' isPtr isArg
      exact ⟨holds.pushed next low, by omega, high⟩

theorem pushWords_cases (ws : List Nat) (room : 4 * ws.length ≤ s.esp) :
    (∃ a, s.pushWords ws = .error a ∧ Faults s (4 * ws.length) a) ∨
      ∃ s', s.pushWords ws = .ok s' ∧ Pushed s s' (4 * ws.length) ∧
        ∀ (i : Nat) w, ws[i]? = some w → s'.Holds (s'.esp + 4 * i) (wordBytes w) := by
  induction ws with
  | nil => exact .inr ⟨s, rfl, .refl s, nofun⟩
  | cons w rest ih =>
    rw [length_cons] at room ⊢
    have four : (wordBytes w).length = 4 := rfl
    unfold pushWords
    obtain ⟨a, run, faults⟩ | ⟨s', run, pushed, words⟩ := ih (by omega)
    · exact .inl ⟨a, by rw [run]; rfl, faults.mono (by omega)⟩
    rw [run]
    have below := pushed.esp
    obtain ⟨a, run, faults⟩ | ⟨s'', run, next, holds⟩ := push_cases (s := s') (wordBytes w)
      (by omega)
    · exact .inl ⟨a, run, (pushed.faults faults).mono (by omega)⟩
    have all := pushed.trans next
    have nextEsp := next.esp
    rw [four, show 4 + 4 * rest.length = 4 * (rest.length + 1) by omega] at all
    refine .inr ⟨s'', run, all, ?_⟩
    intro i w' isWord
    cases i with
    | zero =>
      cases isWord
      exact holds
    | succ i =>
      have holds := words i w' isWord
      rw [show s''.esp + 4 * (i + 1) = s'.esp + 4 * i by omega]
      exact holds.pushed next (Nat.le_add_right ..)

/-- The stack as `setup_stack` leaves it. -/
abbrev start (pages : Nat → Bool) : UserStack :=
  ⟨physBase.toNat, fun _ => none, fun page => decide (page = stackUpage) || pages page⟩

/-- What is on the stack in the end: the words from `esp` on, and above them the strings. -/
theorem pushArguments_cases (pages : Nat → Bool) (argv : List (List Byte))
    (room : stackNeed argv ≤ physBase.toNat) :
    (∃ a, pushArguments pages argv = .error a ∧ Faults (start pages) (stackNeed argv) a) ∨
    ∃ s argvPtrs, pushArguments pages argv = .ok s ∧ argvPtrs.length = argv.length ∧
      Pushed (start pages) s (stackNeed argv) ∧
      (∀ (i : Nat) w, ([0, argv.length, s.esp + 12] ++ (argvPtrs ++ [0]))[i]? = some w →
        s.Holds (s.esp + 4 * i) (wordBytes w)) ∧
      ∀ (i : Nat) p arg, argvPtrs[i]? = some p → argv[i]? = some arg →
        s.Holds p (arg ++ [0]) ∧ s.esp + 4 * (argv.length + 4) ≤ p ∧ p < physBase.toNat := by
  have top : physBase.toNat = 3221225472 := rfl
  unfold stackNeed at room ⊢
  have startEsp : (start pages).roundDown.esp = 3221225472 := by
    simp only [roundDown, top]
  have rounded := roundDown_pushed (s := start pages)
  rw [show (start pages).esp % 4 = 0 by simp only [top]] at rounded
  unfold pushArguments
  dsimp only
  obtain ⟨a, run, faults⟩ | ⟨argvPtrs, s1, run, strings, length, args⟩ :=
    pushStrings_cases (s := (start pages).roundDown) argv (by omega)
  · exact .inl ⟨a, by rw [run]; rfl, (rounded.faults faults).mono (by omega)⟩
  rw [run]
  simp only [bind, Except.bind]
  have stringsEsp := strings.esp
  have below := (rounded.trans strings).trans (roundDown_pushed (s := s1))
  have aligned := (roundDown_pushed (s := s1)).esp
  have roundEsp : s1.roundDown.esp = s1.esp / 4 * 4 := rfl
  have count : (argvPtrs ++ [0]).length = argv.length + 1 := by
    rw [length_append, length, length_singleton]
  obtain ⟨a, run, faults⟩ | ⟨s2, run, first, ptrs⟩ :=
    pushWords_cases (s := s1.roundDown) (argvPtrs ++ [0]) (by omega)
  · exact .inl ⟨a, by rw [run], (below.faults faults).mono (by omega)⟩
  rw [run]
  dsimp only
  have firstEsp := first.esp
  rw [count] at first firstEsp
  have three : [0, argv.length, s2.esp].length = 3 := rfl
  obtain ⟨a, run, faults⟩ | ⟨s3, run, last, words⟩ :=
    pushWords_cases (s := s2) [0, argv.length, s2.esp] (by omega)
  · exact .inl ⟨a, run, ((below.trans first).faults faults).mono (by omega)⟩
  have lastEsp := last.esp
  rw [three] at last lastEsp
  have all := (below.trans first).trans last
  refine .inr ⟨s3, argvPtrs, run, length, ⟨by dsimp only; omega, fun a outside =>
    all.image a (by dsimp only at outside ⊢; omega), all.writable, all.stored⟩, ?_, ?_⟩
  · intro i w isWord
    by_cases low : i < 3
    · rw [getElem?_append_left (by rw [length_cons]; exact low),
        show s3.esp + 12 = s2.esp by omega] at isWord
      exact words i w isWord
    · rw [getElem?_append_right (by rw [length_cons]; exact Nat.le_of_not_lt low)] at isWord
      have holds := (ptrs _ w isWord).pushed last (Nat.le_add_right ..)
      have place : s2.esp + 4 * (i - 3) = s3.esp + 4 * i := by omega
      rwa [show [0, argv.length, s3.esp + 12].length = 3 from rfl, place] at holds
  intro i p arg isPtr isArg
  obtain ⟨holds, low, high⟩ := args i p arg isPtr isArg
  refine ⟨((holds.pushed roundDown_pushed low).pushed first ?_).pushed last ?_, by omega, by omega⟩
  · omega
  · omega

theorem stackNeed_parseArguments {fileName : List Byte} (short : fileName.length + 1 < cmdlenMax) :
    stackNeed (parseArguments fileName) ≤ 2 * pgSize := by
  have bytes := (strtokLoop_pieces (0x20 : Byte) argvMax fileName).2
  have count : (parseArguments fileName).length ≤ argvMax := by
    rw [parseArguments_eq, length_take]
    exact Nat.min_le_left ..
  unfold parseArguments at count ⊢
  unfold stackNeed cmdlenMax argvMax pgSize at *
  omega

/-- The process is ended within the bytes that the arguments take, or it finds them. -/
theorem pushArguments_decodes (pages : Nat → Bool) (argv : List (List Byte))
    (room : stackNeed argv ≤ physBase.toNat) :
    (∃ a, pushArguments pages argv = .error a ∧ Faults (start pages) (stackNeed argv) a) ∨
      ∃ s, pushArguments pages argv = .ok s ∧ Pushed (start pages) s (stackNeed argv) ∧
        s.Decodes argv := by
  refine (pushArguments_cases pages argv room).imp_right ?_
  rintro ⟨s, argvPtrs, run, length, pushed, words, args⟩
  refine ⟨s, run, pushed, ?_⟩
  have esp := pushed.esp
  have top : physBase.toNat = 3221225472 := rfl
  dsimp only at esp
  unfold stackNeed at room esp
  have argvAt : ∀ (i : Nat) w, (argvPtrs ++ [0])[i]? = some w → w < 2 ^ 32 →
      s.word (s.esp + 12 + 4 * i) = some w := by
    intro i w isWord fits
    have holds := words (i + 3) w isWord
    rw [show s.esp + 4 * (i + 3) = s.esp + 12 + 4 * i by omega] at holds
    exact holds.word fits
  refine ⟨by omega, (words 0 0 rfl).word (by decide), (words 1 _ rfl).word (by omega),
    s.esp + 12, (words 2 _ rfl).word (by omega), Nat.le_refl _, ?_, ?_⟩
  · exact argvAt argv.length 0 (by simp [← length]) (by decide)
  intro i arg isArg
  have small : i < argvPtrs.length := by
    rw [length]
    exact (List.getElem?_eq_some_iff.mp isArg).1
  obtain ⟨holds, above, below⟩ := args i _ arg (List.getElem?_eq_getElem small) isArg
  refine ⟨_, argvAt i _ ?_ (by omega), holds, by omega⟩
  rw [List.getElem?_append_left small, List.getElem?_eq_getElem small]

/-! ## The page of the stack -/

theorem Decodes.image_esp {argv : List (List Byte)} (decodes : s.Decodes argv) :
    s.image s.esp ≠ none := by
  intro absent
  have first := decodes.returnAddress
  simp [UserStack.word, absent] at first

/-- The pushes do not end the process exactly if the arguments fit into the page, or the program
    has a page below it. -/
theorem pushArguments_ok_iff (pages : Nat → Bool) {argv : List (List Byte)}
    (room : stackNeed argv ≤ 2 * pgSize) :
    (∃ s, pushArguments pages argv = .ok s ∧ s.Decodes argv) ↔
      stackNeed argv ≤ pgSize ∨ pages (stackUpage - 1) = true := by
  have top : physBase.toNat = 3221225472 := rfl
  have page : pgSize = 4096 := rfl
  have stack : stackUpage = 786431 := rfl
  obtain ⟨a, run, faults⟩ | ⟨s, run, pushed, decodes⟩ :=
    pushArguments_decodes pages argv (by omega)
  · refine iff_of_false (by simp [run]) ?_
    have low := faults.low
    have high := faults.high
    have missing := faults.missing
    dsimp only at low high missing
    rw [Bool.or_eq_false_iff, decide_eq_false_iff_not, page] at missing
    rintro (fits | present)
    · exact missing.1 (by omega)
    · rw [show a / 4096 = stackUpage - 1 by omega, present] at missing
      cases missing.2
  · refine iff_of_true ⟨s, run, decodes⟩ (Nat.lt_or_ge pgSize (stackNeed argv) |>.elim
      (fun more => .inr ?_) .inl)
    have esp := pushed.esp
    dsimp only at esp
    have writable := (pushed.stored _ decodes.image_esp).resolve_left (by simp)
    rw [show s.esp / pgSize = stackUpage - 1 by rw [page]; omega, Bool.or_eq_true] at writable
    exact writable.resolve_left (by simp [stack])

/-- For every command line the program finds the tokens of the line, but not more than `ARGV_MAX` of
    them, exactly if `start_process` takes the line and the arguments fit into the page of
    `setup_stack` or the program has a page below it. -/
theorem argument_stack_decodes_iff (load : Option (List Byte) → Option (Nat → Bool))
    {fileName : List Byte} (string : 0 ∉ fileName) :
    (parseArguments fileName = (spaceTokens fileName).take argvMax ∧
      (parseArguments fileName).length = min (spaceTokens fileName).length argvMax ∧
      ∀ arg ∈ parseArguments fileName, 0 ∉ arg) ∧
    (startProcessStack load fileName = .quits ∨
        (startProcessStack load fileName).RunsWith (parseArguments fileName) ↔
      fileName.length + 1 < cmdlenMax ∧ ∀ pages ∈ load (parseArguments fileName).head?,
        stackNeed (parseArguments fileName) ≤ pgSize ∨ pages (stackUpage - 1) = true) := by
  refine ⟨⟨parseArguments_eq fileName, ?_, fun arg mem zero =>
    string ((strtokLoop_pieces _ argvMax fileName).1 arg mem zero)⟩, ?_⟩
  · rw [parseArguments_eq, length_take, Nat.min_comm]
  unfold startProcessStack loadAndPush
  by_cases short : fileName.length + 1 < cmdlenMax
  swap
  · rw [if_neg short]
    exact iff_of_false (by simp [Started.RunsWith]) fun h => short h.1
  rw [if_pos short]
  cases load (parseArguments fileName).head? with
  | none => simp [short]
  | some pages =>
    have fits := pushArguments_ok_iff pages (stackNeed_parseArguments short)
    simp only [short, true_and, Option.mem_some_iff, forall_eq', ← fits]
    cases run : pushArguments pages (parseArguments fileName) with
    | error a => simp [Started.RunsWith]
    | ok s => simp [Started.RunsWith]

/-- `ls  -l`. -/
theorem argument_stack_decodes_iff_ls :
    (startProcessStack (fun _ => some fun _ => false) [0x6c, 0x73, 0x20, 0x20, 0x2d, 0x6c]).RunsWith
      [[0x6c, 0x73], [0x2d, 0x6c]] := by
  have tokens : parseArguments [0x6c, 0x73, 0x20, 0x20, 0x2d, 0x6c] =
    [[0x6c, 0x73], [0x2d, 0x6c]] := by decide
  have decodes := (@argument_stack_decodes_iff (fun _ => some fun _ => false)
    [0x6c, 0x73, 0x20, 0x20, 0x2d, 0x6c] (by decide)).2
  rw [tokens] at decodes
  refine (decodes.mpr ⟨by decide, fun pages _ => .inl (by decide)⟩).resolve_left fun quits => ?_
  simp only [startProcessStack, loadAndPush] at quits
  split at quits
  · split at quits <;> cases quits
  · cases quits

/-- The child of `exec_` gets the tokens of the line. -/
theorem argv_of_exec {mem : AddressSpace} {cmdLine : Addr} {argv : List (List Byte)}
    (accepted : exec_ mem cmdLine = .returns argv) :
    (userStr mem cmdlenMax cmdLine).length + 1 < cmdlenMax ∧
      argv = parseArguments (userStr mem cmdlenMax cmdLine) := by
  have valid : isValidStr mem cmdLine cmdlenMax = some true := by
    cases valid : isValidStr mem cmdLine cmdlenMax with
    | none => simp [exec_, valid] at accepted
    | some ok => cases ok <;> simp [exec_, valid] at accepted ⊢
  rw [exec_eq valid] at accepted
  split at accepted
  · next h =>
    cases accepted
    exact ⟨h.2, (parseArguments_eq _).symm⟩
  · cases accepted

/-- For every command line that `exec_` takes, the stores are in the page of `setup_stack` exactly
    if the program cannot be loaded or the arguments fit into the page. -/
theorem arguments_in_stack_page_iff (load : Option (List Byte) → Option (Nat → Bool))
    {mem : AddressSpace} {cmdLine : Addr} {argv : List (List Byte)}
    (accepted : exec_ mem cmdLine = .returns argv) :
    (∀ a, (loadAndPush load argv).StoresTo a → physBase.toNat - pgSize ≤ a ∧ a < physBase.toNat) ↔
      load argv.head? = none ∨ stackNeed argv ≤ pgSize := by
  obtain ⟨short, rfl⟩ := argv_of_exec accepted
  have need := stackNeed_parseArguments short
  generalize parseArguments (userStr mem cmdlenMax cmdLine) = argv at need
  have top : physBase.toNat = 3221225472 := rfl
  have page : pgSize = 4096 := rfl
  have stack : stackUpage = 786431 := rfl
  unfold loadAndPush
  cases load argv.head? with
  | none => simp [Started.StoresTo]
  | some pages =>
    rw [or_iff_right (by simp)]
    dsimp only
    obtain ⟨a, run, faults⟩ | ⟨s, run, pushed, decodes⟩ :=
      pushArguments_decodes pages argv (by omega)
    · rw [run]
      have low := faults.low
      have missing := (Bool.or_eq_false_iff.mp faults.missing).1
      rw [decide_eq_false_iff_not] at missing
      dsimp only at low
      constructor
      · intro stores
        have inPage := stores a rfl
        exact absurd (show a / pgSize = stackUpage by rw [page]; omega) missing
      · rintro fits _ rfl
        have high := faults.high
        dsimp only at high
        exact ⟨by omega, high⟩
    · rw [run]
      have esp := pushed.esp
      dsimp only at esp
      constructor
      · intro stores
        have inPage := stores s.esp decodes.image_esp
        omega
      · intro fits a some?
        by_contra elsewhere
        exact some? (pushed.image a (by dsimp only; omega))

/-- The program `a`. -/
theorem arguments_in_stack_page_iff_short : ∃ mem cmdLine argv,
    exec_ mem cmdLine = .returns argv ∧
      ∀ a, (loadAndPush (fun _ => some fun _ => false) argv).StoresTo a →
        physBase.toNat - pgSize ≤ a ∧ a < physBase.toNat := by
  obtain ⟨valid, line⟩ := textAt_str (show (0 : Byte) ∉ [0x61] by decide) (by decide)
    (show _ < cmdlenMax by decide)
  have accepted : exec_ (textAt [0x61]) 0x1000 = .returns [[0x61]] := by
    rw [exec_eq valid, line]
    rfl
  exact ⟨_, _, _, accepted,
    (arguments_in_stack_page_iff (fun _ => some fun _ => false) accepted).mpr (.inr (by decide))⟩

/-- `prog` with an argument of 4089 characters. -/
theorem exists_longLine : ∃ line : List Byte, line.length + 1 < cmdlenMax ∧ 0 ∉ line ∧
    (∃ c ∈ line, c ≠ 0x20) ∧ pgSize < stackNeed (parseArguments line) := by
  obtain ⟨arg, isLength, noSpace, noNull⟩ : ∃ arg : List Byte, arg.length = 4089 ∧ 0x20 ∉ arg ∧
      0 ∉ arg := ⟨replicate 4089 0x61, length_replicate,
    fun mem => absurd (eq_of_mem_replicate mem) (by decide),
    fun mem => absurd (eq_of_mem_replicate mem) (by decide)⟩
  have nonempty : arg ≠ [] := by
    rintro rfl
    cases isLength
  have tokens : spaceTokens ([0x70, 0x72, 0x6f, 0x67] ++ 0x20 :: arg) =
      [[0x70, 0x72, 0x6f, 0x67], arg] := by
    refine (parts_append_cons _ _ _).trans ?_
    rw [parts_of_notMem (by simp) (by decide), parts_of_notMem nonempty noSpace]
    rfl
  refine ⟨[0x70, 0x72, 0x6f, 0x67] ++ 0x20 :: arg, by simp [isLength], by simpa using noNull,
    ⟨0x70, by simp, by decide⟩, ?_⟩
  rw [parseArguments_eq, tokens]
  simp [stackNeed, argvMax, isLength, pgSize]

/-- The process is ended while its arguments are pushed. -/
theorem arguments_end_process : ∃ load fileName a, fileName.length + 1 < cmdlenMax ∧
    0 ∉ fileName ∧ startProcessStack load fileName = .killed a := by
  obtain ⟨line, short, string, -, large⟩ := exists_longLine
  obtain ⟨a, run, -⟩ | ⟨s, run, -, decodes⟩ := pushArguments_decodes (fun _ => false) _
    ((stackNeed_parseArguments short).trans (by decide))
  · exact ⟨fun _ => some fun _ => false, line, a, short, string, by
      simp only [startProcessStack, loadAndPush, if_pos short, run]⟩
  · have fits := (pushArguments_ok_iff (fun _ => false) (stackNeed_parseArguments short)).mp
      ⟨s, run, decodes⟩
    exact absurd (fits.resolve_right Bool.false_ne_true) (Nat.not_le.mpr large)

/-- Whatever pages the program has, the last words of the arguments are stored below the page of
    `setup_stack`. -/
theorem arguments_below_stack_page : ∃ mem cmdLine argv, exec_ mem cmdLine = .returns argv ∧
    ∀ pages, ∃ a, (loadAndPush (fun _ => some pages) argv).StoresTo a ∧
      a < physBase.toNat - pgSize := by
  obtain ⟨line, short, string, token, large⟩ := exists_longLine
  have top : physBase.toNat = 3221225472 := rfl
  have page : pgSize = 4096 := rfl
  have stack : stackUpage = 786431 := rfl
  have need := stackNeed_parseArguments short
  obtain ⟨valid, isLine⟩ := textAt_str string (by unfold cmdlenMax at short; omega)
    (show line.length < cmdlenMax by omega)
  have accepted : exec_ (textAt line) 0x1000 = .returns (parseArguments line) := by
    rw [exec_eq valid, isLine, if_pos ⟨token, short⟩, parseArguments_eq]
  refine ⟨_, _, _, accepted, fun pages => ?_⟩
  unfold loadAndPush
  dsimp only
  obtain ⟨a, run, faults⟩ | ⟨s, run, pushed, decodes⟩ := pushArguments_decodes pages
    (parseArguments line) (by omega)
  · rw [run]
    refine ⟨a, rfl, ?_⟩
    have high := faults.high
    have missing := (Bool.or_eq_false_iff.mp faults.missing).1
    rw [decide_eq_false_iff_not, page] at missing
    dsimp only at high
    omega
  · rw [run]
    have esp := pushed.esp
    dsimp only at esp
    exact ⟨s.esp, decodes.image_esp, by omega⟩

end UserStack

end Pintos
