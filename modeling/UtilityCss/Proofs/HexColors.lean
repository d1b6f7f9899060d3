import UtilityCss.Proofs.CheckedSteps
import UtilityCss.Proofs.Values

/-!
# Hexadecimal colors

The hexadecimal colors of the palette and the special names all have six digits, two for each channel, and the
channels are read back as they are written.
-/

namespace UtilityCss
open Text

def hexPair (n : Nat) : List Char := [Nat.digitChar (n / 16), Nat.digitChar (n % 16)]

def hexText (red green blue : Nat) : String :=
  String.ofList ('#' :: (hexPair red ++ hexPair green ++ hexPair blue))

def lowerDigits : List Char := (List.range 16).map Nat.digitChar

namespace Rgb

theorem channel?_hexPair {n : Nat} (h : n < 256) : channel? (hexPair n) = some (Int.ofNat n) := by
  have hdigits : ∀ n < 16, Nat.digitChar n ∈ hexDigits ∧ Numeral.digit? (Nat.digitChar n) = some n := by decide
  obtain ⟨hmem, hvalue⟩ := hdigits (n / 16) (by omega)
  obtain ⟨hmem', hvalue'⟩ := hdigits (n % 16) (by omega)
  have hmagnitude : Numeral.magnitude 16 (hexPair n) = n := by
    simp only [hexPair, Numeral.magnitude, List.foldl_cons, List.foldl_nil, hvalue, hvalue', Option.getD_some]
    omega
  exact (channel?_eq hmem hmem').trans (by rw [← hexPair, hmagnitude])

theorem ofHex?_hexText {red green blue : Nat} (hred : red < 256) (hgreen : green < 256) (hblue : blue < 256) :
    ofHex? (hexText red green blue) =
      some { red := Int.ofNat red, green := Int.ofNat green, blue := Int.ofNat blue } := by
  have hmark : Nat.digitChar (red / 16) ≠ '#' := by
    have hdigits : ∀ n < 16, Nat.digitChar n ≠ '#' := by decide
    exact hdigits _ (by omega)
  have hpairs : (hexText red green blue).toList.dropWhile (· == '#') =
      hexPair red ++ hexPair green ++ hexPair blue := by
    rw [hexText, String.toList_ofList, List.dropWhile_cons_of_pos (by decide)]
    exact List.dropWhile_cons_of_neg (by simp [hmark])
  have hr := channel?_hexPair hred
  have hg := channel?_hexPair hgreen
  have hb := channel?_hexPair hblue
  simp only [hexPair] at hr hg hb
  simp [ofHex?, hpairs, hexPair, hr, hg, hb]

end Rgb

theorem exists_hexPair {a b : Char} (ha : a ∈ lowerDigits) (hb : b ∈ lowerDigits) :
    ∃ n < 256, [a, b] = hexPair n := by
  obtain ⟨x, hx, rfl⟩ := List.mem_map.1 ha
  obtain ⟨y, hy, rfl⟩ := List.mem_map.1 hb
  rw [List.mem_range] at hx hy
  refine ⟨16 * x + y, by omega, ?_⟩
  rw [hexPair, show (16 * x + y) / 16 = x by omega, show (16 * x + y) % 16 = y by omega]

def IsHexText (color : String) : Prop :=
  ∃ red < 256, ∃ green < 256, ∃ blue < 256, color = hexText red green blue

theorem isHexText_ofList {a b c d e f : Char}
    (h : ([a, b, c, d, e, f].all fun digit => lowerDigits.contains digit) = true) :
    IsHexText (String.ofList ('#' :: [a, b, c, d, e, f])) := by
  have hall : ∀ digit ∈ [a, b, c, d, e, f], digit ∈ lowerDigits := by simpa using h
  obtain ⟨red, hred, hr⟩ := exists_hexPair (hall a (by simp)) (hall b (by simp))
  obtain ⟨green, hgreen, hg⟩ := exists_hexPair (hall c (by simp)) (hall d (by simp))
  obtain ⟨blue, hblue, hb⟩ := exists_hexPair (hall e (by simp)) (hall f (by simp))
  refine ⟨red, hred, green, hgreen, blue, hblue, ?_⟩
  rw [hexText, ← hr, ← hg, ← hb]
  rfl

theorem isHexText_of_hex? {family shade color : String} (h : Palette.hex? family shade = some color) :
    IsHexText color := by
  have htable : ∀ p ∈ Palette.families, ∀ color ∈ p.2, IsHexText color := by
    repeat' first
      | exact List.forall_mem_nil _
      | exact isHexText_ofList rfl
      | refine List.forall_mem_cons.2 ⟨?_, ?_⟩
  simp only [Palette.hex?, Option.bind_eq_bind, Option.bind_eq_some_iff] at h
  obtain ⟨wanted, -, colors, hcolors, h⟩ := h
  exact htable _ (mem_of_lookup_eq_some hcolors) _ (List.of_mem_zip (mem_of_lookup_eq_some h)).2

theorem isHexText_of_ofName? {naming : Naming} {name digits : String}
    (h : Color.ofName? naming name = some (.hex digits)) : IsHexText digits := by
  have htable : ∀ p ∈ Palette.special, beginsWith "#" p.2 → IsHexText p.2 := by
    have hwords : ∀ p ∈ Palette.special.drop 2, beginsWith "#" p.2 = false := by decide
    refine List.forall_mem_cons.2 ⟨fun _ => isHexText_ofList rfl, ?_⟩
    refine List.forall_mem_cons.2 ⟨fun _ => isHexText_ofList rfl, fun p hp hmark => ?_⟩
    rw [hwords p hp] at hmark
    cases hmark
  rw [Color.ofName?] at h
  split at h
  · cases Option.some.inj h
  · split at h
    · rename_i value hvalue
      split at h
      · rename_i hmark
        obtain rfl := Color.hex.inj (Option.some.inj h)
        exact htable _ (mem_of_lookup_eq_some hvalue) hmark
      · cases Option.some.inj h
    · simp only [Option.bind_eq_bind, Option.bind_eq_some_iff, Option.map_eq_some_iff] at h
      obtain ⟨cut, -, color, hcolor, heq⟩ := h
      obtain rfl := Color.hex.inj heq
      exact isHexText_of_hex? hcolor

end UtilityCss
