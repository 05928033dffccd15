import BlockScript.Proofs.Single.ReadBack
import BlockScript.Proofs.Wire.Escapes
import BlockScript.Program.Header
import BlockScript.Text.Lines

namespace BlockScript

/-- A text that can be a field of a line. -/
def Field.Clean (field : String) : Prop := ∀ c ∈ field.toList, c ≠ ' ' ∧ c ≠ '\n'

namespace Field

instance (field : String) : Decidable (Clean field) :=
  List.decidableBAll (fun c => c ≠ ' ' ∧ c ≠ '\n') field.toList

theorem clean_of_digits {ds : List Char} (h : ∀ c ∈ ds, c.isDigit) : Clean (String.ofList ds) := by
  intro c hc
  rw [String.toList_ofList] at hc
  have hd := h c hc
  constructor <;> rintro rfl <;> exact absurd hd (by decide)

theorem clean_append {s t : String} (hs : Clean s) (ht : Clean t) : Clean (s ++ t) := by
  intro c hc
  rw [String.toList_append] at hc
  exact (List.mem_append.1 hc).elim (hs c) (ht c)

theorem clean_nat (n : Nat) : Clean (toString n) := by
  rw [Nat.toString_eq_ofList_toDigits]
  exact clean_of_digits fun c => Nat.isDigit_of_mem_toDigits (by decide) (by decide)

theorem clean_int (n : Int) : Clean (toString n) := by
  cases n with
  | ofNat n => exact clean_nat n
  | negSucc n => exact clean_append (s := "-") (by decide) (clean_nat (n + 1))

theorem clean_escape (text : String) : Clean (escape text) := fun c hc =>
  have hescaped := escaped_escape text c hc
  ⟨hescaped.1, hescaped.2.1⟩

theorem clean_word (b : Bool) : Clean (if b then "true" else "false") := by
  cases b <;> decide

theorem mem_positional {ds : List Char} {point : Int} {c : Char}
    (h : c ∈ Single.positional ds point) : c ∈ ds ∨ c = '0' ∨ c = '.' := by
  unfold Single.positional at h
  split at h
  · simp only [List.mem_append, List.mem_cons, List.not_mem_nil, or_false,
      List.mem_replicate] at h
    grind
  · split at h
    · simp only [List.mem_append, List.mem_replicate] at h
      grind
    · simp only [List.mem_append, List.mem_cons, List.not_mem_nil, or_false] at h
      rcases h with (h | h) | h
      · exact .inl (List.mem_of_mem_take h)
      · exact .inr (.inr h)
      · exact .inl (List.mem_of_mem_drop h)

theorem clean_plain (x : Single) : Clean x.plain := by
  unfold Single.plain
  split
  · decide
  · refine clean_append ?_ ?_
    · split <;> decide
    · split
      · decide
      · split
        · decide
        · intro c hc
          rw [String.toList_ofList] at hc
          rcases mem_positional hc with hd | rfl | rfl
          · have hd := Single.isDigit_significant hd
            constructor <;> rintro rfl <;> exact absurd hd (by decide)
          · decide
          · decide

end Field

namespace Numeral

theorem digits_toDigits (n : Nat) : ∀ c ∈ Nat.toDigits 10 n, c.isDigit := fun _ =>
  Nat.isDigit_of_mem_toDigits (by decide) (by decide)

theorem natural?_digits {bound : Nat} {ds : List Char} (h : ∀ c ∈ ds, c.isDigit) :
    natural? bound ds = (ofDigits? ds).filter (· < bound) := by
  unfold natural?
  split
  · exact absurd (h '+' (by simp)) (by decide)
  · rfl

theorem natural?_toDigits {bound n : Nat} (h : n < bound) :
    natural? bound (Nat.toDigits 10 n) = some n := by
  rw [natural?_digits (digits_toDigits n), ofDigits?_toDigits]
  simp [h]

theorem count?_toString {n : Nat} (h : n < 2 ^ 64) : count? (toString n) = some n := by
  rw [count?, Nat.toString_eq_ofList_toDigits, String.toList_ofList]
  exact natural?_toDigits h

theorem word?_toString (w : UInt32) : word? (toString w.toNat) = some w := by
  have hw : w.toNat < 0x100000000 := w.toNat_lt
  rw [word?, Nat.toString_eq_ofList_toDigits, String.toList_ofList, natural?_toDigits hw,
    Option.map_some, UInt32.ofNat_toNat]

theorem integer?_digits {ds : List Char} (h : ∀ c ∈ ds, c.isDigit) :
    integer? ds = (ofDigits? ds).bind fun n => ofInt? n := by
  unfold integer?
  split
  · exact absurd (h '-' (by simp)) (by decide)
  · exact absurd (h '+' (by simp)) (by decide)
  · rfl

theorem ofInt?_toInt (value : Int64) : ofInt? value.toInt = some value := by
  have hvalue : -0x8000000000000000 ≤ value.toInt ∧ value.toInt < 0x8000000000000000 :=
    ⟨value.le_toInt, value.toInt_lt⟩
  rw [ofInt?, if_pos hvalue, Int64.ofInt_toInt]

theorem integer?_toString (value : Int64) :
    integer? (toString value.toInt).toList = some value := by
  have h := ofInt?_toInt value
  cases hv : value.toInt with
  | ofNat n =>
    have ht : toString (Int.ofNat n) = toString n := rfl
    rw [hv, Int.ofNat_eq_natCast] at h
    rw [ht, Nat.toString_eq_ofList_toDigits, String.toList_ofList,
      integer?_digits (digits_toDigits n), ofDigits?_toDigits, Option.bind_some, h]
  | negSucc n =>
    have ht : toString (Int.negSucc n) = "-" ++ toString (n + 1) := rfl
    rw [hv, Int.negSucc_eq, ← Int.natCast_succ] at h
    rw [ht, Nat.toString_eq_ofList_toDigits, String.toList_append, String.toList_ofList,
      String.toList_ofList, List.singleton_append, integer?, ofDigits?_toDigits,
      Option.bind_some, h]

end Numeral

namespace Location

/-- A place as it comes out of a record: the marks in its file name have become spaces. -/
def carried (l : Location) : Location := { l with file := unmarkSpaces l.file }

theorem unmark_mark (file : String) : unmarkSpaces (markSpaces file) = unmarkSpaces file := by
  unfold unmarkSpaces markSpaces
  rw [String.map_map]
  congr 1
  funext c
  by_cases hc : c = ' '
  · simp [hc]
  · simp [hc]

theorem mark_unmark (file : String) : markSpaces (unmarkSpaces file) = markSpaces file := by
  unfold unmarkSpaces markSpaces
  rw [String.map_map]
  congr 1
  funext c
  by_cases hc : c = spaceMark
  · simp [hc]
  · simp [hc]

theorem ofFields_toFields (l : Location) : ofFields l.toFields = .ok l.carried := by
  simp only [toFields, ofFields, Numeral.word?_toString, unmark_mark]
  rfl

theorem toFields_carried (l : Location) : l.carried.toFields = l.toFields := by
  rw [toFields, carried, mark_unmark]
  rfl

theorem carried_eq {l : Location} (h : spaceMark ∉ l.file.toList) : l.carried = l := by
  have hfile : unmarkSpaces l.file = l.file := by
    rw [← String.toList_inj, unmarkSpaces, String.toList_map]
    refine (List.map_congr_left fun c hc => ?_).trans (List.map_id _)
    rw [if_neg, id]
    rintro rfl
    exact h hc
  rw [carried, hfile]

theorem clean_mark {file : String} (h : '\n' ∉ file.toList) : Field.Clean (markSpaces file) := by
  intro c hc
  rw [markSpaces, String.toList_map, List.mem_map] at hc
  obtain ⟨d, hd, rfl⟩ := hc
  by_cases hs : d = ' '
  · rw [if_pos hs]
    decide
  · rw [if_neg hs]
    refine ⟨hs, ?_⟩
    rintro rfl
    exact h hd

theorem space_not_mem_mark (file : String) : ' ' ∉ (markSpaces file).toList := by
  intro hc
  rw [markSpaces, String.toList_map, List.mem_map] at hc
  obtain ⟨d, -, hd⟩ := hc
  by_cases hs : d = ' '
  · rw [if_pos hs] at hd
    exact absurd hd (by decide)
  · rw [if_neg hs] at hd
    exact hs hd

end Location
end BlockScript
