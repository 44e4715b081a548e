import EcmaScript.Grammar.Program

/-!
What the text after a program is good for. A sealed source is a program followed by the sentinel. Its
last character is a letter behind which no reader ever looks, and its semicolon ends the layout after
the program, so that the last token of a program has another one after it.
-/

namespace EcmaScript

/-- The source is a program of the given length followed by the sentinel. -/
structure Sealed (src : Source) (length : Nat) : Prop where
  size : src.size = length + Parser.sentinel.length
  tail : ∀ i, i < Parser.sentinel.length → src[length + i]? = Parser.sentinel[i]?

namespace Sealed

theorem ofText (code : Text) : Sealed (Source.ofText (code ++ Parser.sentinel)) code.length where
  size := by simp [Source.ofText]
  tail i _ := by simp [Source.ofText, List.getElem?_append_right]

variable {src : Source} {length index : Nat} {c : CodePoint}

section

variable (ends : Sealed src length)
include ends

theorem size_eq : src.size = length + 10 :=
  ends.size

/-- A character stands in the program or is one of the sentinel. -/
theorem cases (found : src[index]? = some c) :
    index < length ∨ ∃ i, index = length + i ∧ Parser.sentinel[i]? = some c := by
  by_cases inCode : index < length
  · exact .inl inCode
  · have bound : index < src.size := (Array.getElem?_eq_some_iff.mp found).1
    have size := ends.size
    obtain ⟨i, rfl⟩ : ∃ i, index = length + i := ⟨index - length, by omega⟩
    rw [ends.tail i (by omega)] at found
    exact .inr ⟨i, rfl, found⟩

theorem inCode (found : src[index]? = some c) (foreign : c ∉ Parser.sentinel) : index < length := by
  rcases ends.cases found with inCode | ⟨i, -, tail⟩
  · exact inCode
  · exact absurd (List.mem_of_getElem? tail) foreign

theorem room (found : src[index]? = some c) (other : c ≠ 0x44) : index + 1 < src.size := by
  have size := ends.size_eq
  rcases ends.cases found with inCode | ⟨i, rfl, tail⟩
  · omega
  · have bound : i < 10 := (List.getElem?_eq_some_iff.mp tail).1
    have notLast : i ≠ 9 := by
      rintro rfl
      exact other (Option.some.inj tail).symm
    omega

theorem slash_inCode (found : src[index]? = some 0x2F) (early : index ≤ length + 3) : index < length := by
  rcases ends.cases found with inCode | ⟨i, rfl, tail⟩
  · exact inCode
  · have small : i = 0 ∨ i = 1 ∨ i = 2 ∨ i = 3 := by omega
    rcases small with rfl | rfl | rfl | rfl <;> cases tail

theorem blank : src[length]? = some 0x20 :=
  ends.tail 0 (by decide)

theorem lineFeed : src[length + 1]? = some 0x0A :=
  ends.tail 1 (by decide)

theorem semicolon : src[length + 3]? = some 0x3B :=
  ends.tail 3 (by decide)

end

end Sealed

end EcmaScript
