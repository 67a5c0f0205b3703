import ProviderSdk.Bytes
import ProviderSdk.Lib.JsonText

/-!
# Bytes in JSON text

What the two writers of JSON share : the literals of the source are UTF-8, and a control
character is written by its number.
-/

namespace ProviderSdk

open JsonText Utf8

theorem wellFormed_lit (s : String) : WellFormed (lit s) := by
  refine ⟨s.toList, ?_⟩
  unfold lit
  conv_rhs => rw [← String.ofList_toList (s := s), String.toByteArray_ofList]
  simp [List.utf8Encode]

theorem codeUnit_hexPadded : ∀ n : Fin 32, hexPadded 4 n.val =
    [48, 48, hexByte (n.val / 16), hexByte (n.val % 16)] ∧
    codeUnit 48 48 (hexByte (n.val / 16)) (hexByte (n.val % 16)) = some n.val := by
  decide +kernel

/-- A control character is written by its number. -/
theorem chars_hexPadded {b : UInt8} (h : b.toNat < 32) :
    Chars (lit "\\u" ++ hexPadded 4 b.toNat) [b] := by
  obtain ⟨hhex, hunit⟩ := codeUnit_hexPadded ⟨b.toNat, h⟩
  rw [hhex]
  exact Chars.ascii (by omega) hunit

end ProviderSdk
