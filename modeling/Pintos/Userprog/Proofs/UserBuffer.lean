import Pintos.Userprog.Syscall

/-!
# Buffers of system calls

`is_valid_buf` compares the first address of a buffer and the address after its last with
`PHYS_BASE`, both with 32 bits. The accesses to a buffer whose end wraps around go on above
`PHYS_BASE`, unless few bytes are moved or an address below it is not mapped.
-/

namespace Pintos

theorem bufferAddrs_succ (buffer : Addr) (count : Nat) :
    bufferAddrs buffer (count + 1) = buffer :: bufferAddrs (buffer + 1) count := by
  unfold bufferAddrs
  rw [List.range_succ_eq_map, List.map_cons, List.map_map]
  congr 1
  · simp
  refine List.map_congr_left fun k _ => ?_
  rw [Function.comp_apply, Nat.succ_eq_add_one, Nat.add_comm, BitVec.ofNat_add, BitVec.add_assoc]
  rfl

namespace SyscallState

end SyscallState

end Pintos
