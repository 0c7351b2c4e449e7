/-!
Space tags: the small numbers that stand for spaces in object headers. Spaces are numbered from one in
the order in which they were laid out; zero stands for no space.
-/

namespace TracingHeap

/-- The number of spaces a layout can hold; a tag has four bits. -/
def maxSpaces : Nat := 15

/-- The number of a space, or zero for none. -/
structure SpaceTag where
  number : UInt8
  deriving DecidableEq, Inhabited

namespace SpaceTag

/-- The tag of no space. -/
def none : SpaceTag := ⟨0⟩

/-- The tag of a number that can stand for a space. -/
def ofNumber? (number : UInt8) : Option SpaceTag :=
  if number = 0 ∨ maxSpaces < number.toNat then .none else some ⟨number⟩

/-- Does the tag stand for no space? -/
def isNone (tag : SpaceTag) : Bool := tag.number == 0

/-- The tag in words. -/
def text (tag : SpaceTag) : String := "SpaceDescriptor(" ++ toString tag.number ++ ")"

end SpaceTag

end TracingHeap
