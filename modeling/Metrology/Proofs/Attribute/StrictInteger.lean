import Metrology.Attribute.Key
import Metrology.Proofs.Attribute.Coercion

/-!
# Strict integers

Integers of two widths are read from the texts of the integers of their range, and from no
other text.  Blanks around the text do no harm.  The keys of attributes are read in the same
way, but without a minus and without blanks.

Each reader builds the magnitude up under the limit of its own width, so what it gives is
within the range already, and putting it into a machine word changes nothing
(`readInteger_toInt_iff`, `readShortInteger_toInt_iff`, `Key.read_toNat_iff`).
-/

namespace Metrology

open Text

namespace Value

/-- A machine word that a number fits into gives it back. -/
theorem toOption_map_map_eq_some_iff {α β ε : Type} {x : Except ε α} {word : α → β} {number : β → α}
    (fits : ∀ a, x = .ok a → number (word a) = a) {b : α} :
    (x.toOption.map word).map number = some b ↔ x = .ok b := by
  rw [Option.map_map, toOption_map_eq_some_iff]
  constructor
  · rintro ⟨a, ok, same⟩
    have back : number (word a) = b := same
    rw [fits a ok] at back
    exact back ▸ ok
  · intro ok
    exact ⟨b, ok, fits b ok⟩

theorem readInteger_toInt_iff {s : String} {n : Int} :
    (readInteger s).map Int32.toInt = some n ↔
      Text.readInteger 2147483647 (trim s.toList) = .ok n := by
  refine toOption_map_map_eq_some_iff fun m read => ?_
  obtain ⟨-, -, least, most⟩ := readInteger_eq_ok_iff.mp read
  exact Int32.toInt_ofInt_of_le (by omega) (by omega)

theorem readShortInteger_toInt_iff {s : String} {n : Int} :
    (readShortInteger s).map Int16.toInt = some n ↔
      Text.readInteger 32767 (trim s.toList) = .ok n := by
  refine toOption_map_map_eq_some_iff fun m read => ?_
  obtain ⟨-, -, least, most⟩ := readInteger_eq_ok_iff.mp read
  exact Int16.toInt_ofInt_of_le (by omega) (by omega)

end Value

namespace Key

theorem toNat_ofNat_of_le {n : Nat} (h : n ≤ 65535) : (UInt16.ofNat n).toNat = n :=
  UInt16.toNat_ofNat_of_lt (Nat.lt_succ_of_le h)

theorem read_toNat_iff {s : String} {n : Nat} :
    (read s).map (fun k => k.number.toNat) = .ok n ↔ readNatural 65535 s.toList = .ok n := by
  rw [map_eq_ok_iff]
  constructor
  · rintro ⟨k, key, rfl⟩
    obtain ⟨m, read, rfl⟩ := map_eq_ok_iff.mp key
    rw [toNat_ofNat_of_le (readNatural_eq_ok_iff.mp read).2]
    exact read
  · intro read
    have value := toNat_ofNat_of_le (readNatural_eq_ok_iff.mp read).2
    exact ⟨⟨UInt16.ofNat n⟩, map_eq_ok_iff.mpr ⟨n, read, rfl⟩, value⟩

/-- A key is read back from its text. -/
theorem read_display (k : Key) : read k.display = .ok k := by
  have most : k.number.toNat ≤ 65535 := Nat.le_of_lt_succ k.number.toNat_lt
  have spells : SpellsNatural (digits k.number.toNat) k.number.toNat :=
    ⟨_, .inl rfl, Nat.toDigits_ne_nil, allDigits_digits _, valueOf_digits _⟩
  have back : readNatural 65535 k.display.toList = .ok k.number.toNat := by
    rw [display, String.toList_ofList]
    exact readNatural_eq_ok_iff.mpr ⟨spells, most⟩
  refine map_eq_ok_iff.mpr ⟨_, back, ?_⟩
  rw [UInt16.ofNat_toNat]

end Key

/-- The readers of integers take the texts of the integers of their range, and give these
integers. -/
theorem read_strictly :
    (∀ (s : String) (n : Int), (Value.readInteger s).map Int32.toInt = some n ↔
      SpellsInteger (trim s.toList) n ∧ -2147483648 ≤ n ∧ n ≤ 2147483647) ∧
    (∀ (s : String) (n : Int), (Value.readShortInteger s).map Int16.toInt = some n ↔
      SpellsInteger (trim s.toList) n ∧ -32768 ≤ n ∧ n ≤ 32767) ∧
    (∀ (s : String) (n : Nat), (Key.read s).map (fun k => k.number.toNat) = .ok n ↔
      SpellsNatural s.toList n ∧ n ≤ 65535) ∧
    ∀ k : Key, Key.read k.display = .ok k := by
  refine ⟨?_, ?_, ?_, Key.read_display⟩
  · intro s n
    rw [Value.readInteger_toInt_iff, readInteger_eq_ok_iff, spellsInteger_iff, and_assoc]
    rfl
  · intro s n
    rw [Value.readShortInteger_toInt_iff, readInteger_eq_ok_iff, spellsInteger_iff, and_assoc]
    rfl
  · intro s n
    rw [Key.read_toNat_iff, readNatural_eq_ok_iff]

end Metrology
