import BlockScript.Proofs.Wire.Record

namespace BlockScript

namespace Text

/-- A text that stays one line among others: it holds no line feed, and its last character is no
carriage return. -/
structure Whole (line : String) : Prop where
  unbroken : '\n' ∉ line.toList
  ended : ∃ c, line.toList.getLast? = some c ∧ c ≠ '\r'

theorem Whole.ne_empty {line : String} (h : Whole line) : line ≠ "" := by
  rintro rfl
  obtain ⟨c, hc, -⟩ := h.ended
  cases hc

theorem Whole.dropReturn_eq {line : String} (h : Whole line) :
    dropReturn line.toList = line.toList := by
  obtain ⟨c, hc, hr⟩ := h.ended
  rw [dropReturn, hc, if_neg]
  exact fun he => hr (Option.some.inj he)

theorem linesOfPieces_whole {ls : List String} (h : ∀ l ∈ ls, Whole l) :
    linesOfPieces (ls.map String.toList) = ls.map String.toList := by
  induction ls with
  | nil => rfl
  | cons l ls ih =>
    have hl := h l (by simp)
    cases ls with
    | nil =>
      have hne : l.toList ≠ [] := fun he => hl.ne_empty (String.toList_eq_nil_iff.1 he)
      simp only [List.map_cons, List.map_nil, linesOfPieces, if_neg hne]
    | cons l' ls =>
      rw [List.map_cons, List.map_cons, linesOfPieces, hl.dropReturn_eq, ← List.map_cons,
        ih fun k hk => h k (List.mem_cons_of_mem _ hk)]
      exact List.cons_ne_nil _ _

theorem linesOfPieces_ended {ls : List String} (h : ∀ l ∈ ls, Whole l) :
    linesOfPieces (ls.map String.toList ++ [[]]) = ls.map String.toList := by
  induction ls with
  | nil => rfl
  | cons l ls ih =>
    rw [List.map_cons, List.cons_append, linesOfPieces, (h l (by simp)).dropReturn_eq,
      ih fun k hk => h k (List.mem_cons_of_mem _ hk)]
    simp

theorem map_ofList_toList (ls : List String) : (ls.map String.toList).map String.ofList = ls := by
  rw [List.map_map]
  simp

theorem lines_intercalate {ls : List String} (h : ∀ l ∈ ls, Whole l) :
    lines ("\n".intercalate ls) = ls := by
  cases ls with
  | nil => exact lines_empty
  | cons l ls =>
    rw [lines, String.toList_intercalate, show "\n".toList = ['\n'] from rfl,
      List.splitOn_intercalate, linesOfPieces_whole h, map_ofList_toList]
    · intro cs hcs
      obtain ⟨k, hk, rfl⟩ := List.mem_map.1 hcs
      exact (h k hk).unbroken
    · simp

theorem unlines_eq {ls : List String} (h : ls ≠ []) :
    unlines ls = String.intercalate "\n" ls ++ "\n" := by
  induction ls with
  | nil => exact absurd rfl h
  | cons l ls ih =>
    have hcons : unlines (l :: ls) = l ++ "\n" ++ unlines ls := by simp [unlines]
    cases ls with
    | nil => simp [unlines]
    | cons k ks =>
      rw [hcons, ih (by simp), String.intercalate_cons_cons]
      simp [String.append_assoc]

theorem splitOn_unlines {ls : List String} (h : ∀ l ∈ ls, '\n' ∉ l.toList) :
    (unlines ls).toList.splitOn '\n' = ls.map String.toList ++ [[]] := by
  induction ls with
  | nil => simp [unlines]
  | cons l ls ih =>
    have hl : (unlines (l :: ls)).toList = l.toList ++ '\n' :: (unlines ls).toList := by
      simp [unlines]
    rw [hl, List.splitOn_append_cons_self_of_not_mem (h l (by simp)),
      ih fun k hk => h k (List.mem_cons_of_mem _ hk)]
    rfl

theorem lines_unlines {ls : List String} (h : ∀ l ∈ ls, Whole l) : lines (unlines ls) = ls := by
  rw [lines, splitOn_unlines fun l hl => (h l hl).unbroken, linesOfPieces_ended h,
    map_ofList_toList]

end Text

namespace Record

theorem line_append {fs gs : List String} (hf : fs ≠ []) (hg : gs ≠ []) :
    line (fs ++ gs) = line fs ++ " " ++ line gs :=
  String.intercalate_append_of_ne_nil hf hg

theorem unbroken_line {fs : List String} (h : ∀ f ∈ fs, '\n' ∉ f.toList) :
    '\n' ∉ (line fs).toList := by
  intro hline
  obtain hspace | ⟨f, hf, hc⟩ := mem_line hline
  · exact absurd hspace (by decide)
  · exact h f hf hc

/-- A record that ends in a place ends in a digit. -/
theorem ended_line (fs : List String) (l : Location) :
    ∃ c, (line (fs ++ l.toFields)).toList.getLast? = some c ∧ c ≠ '\r' := by
  have hd := Numeral.digits_toDigits l.column.toNat
  obtain ⟨c, hc⟩ := Option.ne_none_iff_exists'.1
    (fun h => Nat.toDigits_ne_nil (b := 10) (List.getLast?_eq_none_iff.1 h) :
      (Nat.toDigits 10 l.column.toNat).getLast? ≠ none)
  refine ⟨c, ?_, ?_⟩
  · have he : fs ++ l.toFields = (fs ++ [Location.markSpaces l.file, toString l.line.toNat]) ++
        [toString l.column.toNat] := by simp [Location.toFields]
    rw [he, line_append (by simp) (by simp), line, line, String.intercalate_singleton,
      String.toList_append, Nat.toString_eq_ofList_toDigits (n := l.column.toNat),
      String.toList_ofList, List.getLast?_append, hc]
    rfl
  · rintro rfl
    exact absurd (hd _ (List.mem_of_getLast? hc)) (by decide)

variable {fs : List String} (h : ∀ f ∈ fs, Field.Clean f) (l : Location)

include h

/-- A record that ends in a place is read back field by field. -/
theorem fields_located : fields (line (fs ++ l.toFields)) = fs ++ l.toFields := by
  have clean : ∀ {g : String}, Field.Clean g → ' ' ∉ g.toList := fun hg hs => (hg _ hs).1 rfl
  refine fields_line (by simp [Location.toFields]) (List.forall_mem_append.2 ⟨?_, ?_⟩)
  · exact fun f hf => clean (h f hf)
  · simp only [Location.toFields, List.forall_mem_cons]
    exact ⟨Location.space_not_mem_mark _, clean (Field.clean_nat _), clean (Field.clean_nat _),
      nofun⟩

theorem whole_located (hl : '\n' ∉ l.file.toList) : Text.Whole (line (fs ++ l.toFields)) := by
  have clean : ∀ {g : String}, Field.Clean g → '\n' ∉ g.toList := fun hg hs => (hg _ hs).2 rfl
  refine ⟨unbroken_line (List.forall_mem_append.2 ⟨?_, ?_⟩), ended_line fs l⟩
  · exact fun f hf => clean (h f hf)
  · simp only [Location.toFields, List.forall_mem_cons]
    exact ⟨clean (Location.clean_mark hl), clean (Field.clean_nat _), clean (Field.clean_nat _),
      nofun⟩

end Record
end BlockScript
