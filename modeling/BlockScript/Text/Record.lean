namespace BlockScript.Record

/-- The fields of a line: the texts between its spaces, empty ones included. -/
def fields (line : String) : List String := (line.toList.splitOn ' ').map String.ofList

/-- A line made of fields, which hold no space of their own. -/
def line (fields : List String) : String := " ".intercalate fields

theorem fields_line {fs : List String} (hne : fs ≠ []) (h : ∀ f ∈ fs, ' ' ∉ f.toList) :
    fields (line fs) = fs := by
  unfold fields line
  rw [String.toList_intercalate, show " ".toList = [' '] from rfl, List.splitOn_intercalate,
    List.map_map]
  · simp
  · simpa using h
  · simpa using hne

theorem mem_line {c : Char} {fs : List String} (h : c ∈ (line fs).toList) :
    c = ' ' ∨ ∃ f ∈ fs, c ∈ f.toList := by
  induction fs with
  | nil => simp [line] at h
  | cons f fs ih =>
    cases fs with
    | nil => exact .inr ⟨f, List.mem_singleton_self f, by simpa [line] using h⟩
    | cons g gs =>
      have hline : line (f :: g :: gs) = f ++ " " ++ line (g :: gs) :=
        String.intercalate_cons_cons
      rw [hline, String.toList_append, String.toList_append, List.mem_append, List.mem_append] at h
      obtain (hf | hs) | hrest := h
      · exact .inr ⟨f, List.mem_cons_self .., hf⟩
      · exact .inl (List.mem_singleton.1 hs)
      · obtain hs | ⟨k, hk, hc⟩ := ih hrest
        · exact .inl hs
        · exact .inr ⟨k, List.mem_cons_of_mem _ hk, hc⟩

theorem fields_ne_nil (text : String) : fields text ≠ [] := by simp [fields]

end BlockScript.Record
