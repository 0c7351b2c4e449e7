import TracingHeap.Mutator.Alloc
import TracingHeap.Proofs.Allotments

/-! Requests that share pages with others, and the cells that serve them. Whether a request shares pages is decided by the
bytes that it asks for, and its class by those bytes rounded up and padded. The limit is whole words and the size of the
largest cells, so every request that shares pages has a class, and in every cell of the class it can be aligned. -/

namespace TracingHeap

namespace SizeClass

variable {sizeClass : Nat} {room : Word}

end SizeClass

namespace Request

variable {r : Request}

/-- With its padding, a request that shares pages still takes no more than the limit: the limit is whole words, so rounding up
what is below it does not lead past it. -/
theorem Legal.shared_room (legal : r.Legal) (shared : r.isLarge = .ok false) :
    ∃ room, r.room = .ok room ∧ room.toNat ≤ 8192 := by
  have few := small_of_shared shared
  obtain ⟨asked, padded, same⟩ := except_bind_ok.mp shared
  have below := mt UInt64.lt_iff_toNat_lt.mpr (by simpa using except_pure_ok.mp same)
  have limit : sharedLimit.toNat = 8192 := rfl
  have total := Padding.maxAlignedSize_ok padded legal.cases
  have slack := Padding.slack_cases r.align
  have whole := Padding.allocationSize_whole r.bytes
  obtain ⟨-, -, rounded⟩ := @Padding.allocationSize_fits r.bytes (by omega)
  obtain ⟨room, found⟩ :=
    @Padding.maxAlignedSize_total (Padding.allocationSize r.bytes) _ legal.small (by omega)
  have sum := Padding.maxAlignedSize_ok found legal.cases
  exact ⟨room, found, by omega⟩

theorem Legal.shared_size (legal : r.Legal) (shared : r.isLarge = .ok false) : r.size ≤ 8192 := by
  obtain ⟨room, padded, small⟩ := legal.shared_room shared
  have total : room.toNat = r.size + Padding.slack r.align := Padding.maxAlignedSize_ok padded legal.cases
  omega

end Request

/-- The longest request that shares pages although it has to be padded. -/
def Request.padded : Request := ⟨8184, 16, 8⟩

/-- In a cell of the largest class it takes the whole cell, from the first aligned place on. -/
example : Padding.alignedStart ⟨4194304⟩ Request.padded.align Request.padded.offset = .ok ⟨4194312⟩ ∧
    4194312 + Request.padded.size = 4194304 + SizeClass.bytesOf 18 := ⟨rfl, by decide⟩

end TracingHeap
