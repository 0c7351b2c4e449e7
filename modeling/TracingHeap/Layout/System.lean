import TracingHeap.Checked
import TracingHeap.Memory

/-!
The system that address space comes from. It reserves a range where it likes, so a range that has to start at a
multiple of some alignment is cut out of a larger one.
-/

namespace TracingHeap

/-- What the system does with address space. -/
structure System where
  /-- Reserves a range of so many bytes. Answers where it starts. -/
  map : Word → Except Refusal Address
  /-- Takes back a range that was reserved. -/
  unmap : Address → Word → Except Refusal Unit

namespace System

/-- Gives a range back that may be empty. -/
def trim (s : System) (start : Address) (bytes : Word) : Except Refusal Unit :=
  if 0 < bytes then s.unmap start bytes else .ok ()

/-- Reserves `size` bytes from a multiple of `alignment` on. That much more is reserved at first, and what lies on either
side is given back. -/
def reserve (s : System) (size alignment : Word) : Except Fault (Except Refusal Address) := do
  let padded ← size.sum alignment
  match s.map padded with
  | .error cause => return .error cause
  | .ok raw =>
    let start := raw.alignUp alignment
    let head ← start.distance raw
    match s.trim raw head with
    | .error cause => return .error cause
    | .ok () =>
      let tail ← (← padded.difference head).difference size
      return (s.trim (← start.above size) tail).map fun () => start

end System

end TracingHeap
