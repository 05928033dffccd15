import Mathlib.Data.List.Basic
import BlockScript.Run.Scopes

namespace BlockScript

namespace Frame

def names (f : Frame) : List String := f.map Prod.fst

theorem get?_eq_none_iff {f : Frame} {name : String} : f.get? name = none ↔ name ∉ f.names := by
  rw [get?, List.lookup_eq_none_iff]
  simp only [names, List.mem_map, bne_iff_ne]
  constructor
  · rintro h ⟨p, hp, rfl⟩
    exact h p hp rfl
  · intro h p hp hn
    exact h ⟨p, hp, hn.symm⟩

theorem set?_eq_none_iff {f : Frame} {name : String} {value : Expr} :
    set? name value f = none ↔ name ∉ f.names := by
  induction f with
  | nil => simp [set?, names]
  | cons p f ih =>
    obtain ⟨key, old⟩ := p
    simp only [names] at ih
    by_cases hk : name = key <;> simp [set?, names, hk, ih]

theorem names_set? {f g : Frame} {name : String} {value : Expr} (h : set? name value f = some g) :
    g.names = f.names := by
  induction f generalizing g with
  | nil => simp [set?] at h
  | cons p f ih =>
    obtain ⟨key, old⟩ := p
    by_cases hk : name = key
    · have hg : (key, value) :: f = g := by simpa [set?, hk] using h
      rw [← hg]
      rfl
    · obtain ⟨f', hf, rfl⟩ : ∃ f', set? name value f = some f' ∧ (key, old) :: f' = g := by
        simpa [set?, hk] using h
      exact congrArg (key :: ·) (ih hf)

end Frame

namespace Scopes

/-- The names bound by frames, a name once for each frame that binds it. -/
def boundNames (frames : List Frame) : List (List String) := frames.map Frame.names

/-- No name is bound in two frames at once. -/
def Unique (s : Scopes) : Prop := (boundNames s.toList).Pairwise List.Disjoint

/-- An operation on the live blocks. -/
inductive Change where
  | push
  | pop
  | assign (name : String) (value : Expr)

/-- The scopes after an operation. -/
def change (order : SearchOrder) (s : Scopes) : Change → Scopes
  | .push => s.push
  | .pop => s.pop
  | .assign name value => s.assign order name value

/-- The scopes that operations lead to from the start. -/
def after (order : SearchOrder) (changes : List Change) : Scopes :=
  changes.foldl (change order) empty

theorem toList_ofList {frames : List Frame} (h : frames ≠ []) :
    (ofList frames).toList = frames := by
  cases frames with
  | nil => exact absurd rfl h
  | cons f fs => rfl

theorem setFirst?_eq_none_iff {name : String} {value : Expr} {frames : List Frame} :
    setFirst? name value frames = none ↔ ∀ f ∈ frames, name ∉ f.names := by
  induction frames with
  | nil => simp [setFirst?]
  | cons f fs ih =>
    cases hf : f.set? name value with
    | none =>
      have hn := Frame.set?_eq_none_iff.1 hf
      simp [setFirst?, hf, hn, ih]
    | some g =>
      have hn : name ∈ f.names := by
        by_contra hn
        rw [Frame.set?_eq_none_iff.2 hn] at hf
        cases hf
      simp [setFirst?, hf, hn]

theorem boundNames_setFirst? {name : String} {value : Expr} {frames set : List Frame}
    (h : setFirst? name value frames = some set) : boundNames set = boundNames frames := by
  induction frames generalizing set with
  | nil => simp [setFirst?] at h
  | cons f fs ih =>
    cases hf : f.set? name value with
    | none =>
      obtain ⟨gs, hg, rfl⟩ : ∃ gs, setFirst? name value fs = some gs ∧ f :: gs = set := by
        simpa [setFirst?, hf] using h
      exact congrArg (f.names :: ·) (ih hg)
    | some g =>
      have hg : g :: fs = set := by simpa [setFirst?, hf] using h
      rw [← hg]
      exact congrArg (· :: boundNames fs) (Frame.names_set? hf)

theorem setFirst?_append {name : String} {value : Expr} (fs gs : List Frame) :
    setFirst? name value (fs ++ gs) =
      ((setFirst? name value fs).map (· ++ gs)).or ((setFirst? name value gs).map (fs ++ ·)) := by
  induction fs with
  | nil => simp [setFirst?]
  | cons f fs ih =>
    cases hf : f.set? name value with
    | some g => simp [setFirst?, hf]
    | none =>
      simp only [List.cons_append, setFirst?, hf, ih]
      cases setFirst? name value fs <;> cases setFirst? name value gs <;> rfl

theorem bindLast_append {name : String} {value : Expr} (fs : List Frame) (f : Frame) :
    bindLast name value (fs ++ [f]) = fs ++ [(name, value) :: f] := by
  induction fs with
  | nil => rfl
  | cons g fs ih =>
    cases fs with
    | nil => rfl
    | cons g' fs => exact congrArg (g :: ·) ih

theorem mem_arrange (order : SearchOrder) {frames : List Frame} {f : Frame} :
    f ∈ order.arrange frames ↔ f ∈ frames := by
  cases order <;> simp [SearchOrder.arrange]

theorem boundNames_arrange (order : SearchOrder) (frames : List Frame) :
    boundNames (order.arrange frames) = order.arrange (boundNames frames) := by
  cases order <;> simp [SearchOrder.arrange, boundNames]

theorem arrange_arrange {α : Type} (order : SearchOrder) (frames : List α) :
    order.arrange (order.arrange frames) = frames := by
  cases order <;> simp [SearchOrder.arrange]

theorem unique_empty : empty.Unique := by simp [Unique, boundNames, empty, toList]

theorem Unique.push {s : Scopes} (h : s.Unique) : s.push.Unique := by
  simp only [Unique, toList_push, boundNames, List.map_append, List.pairwise_append]
  refine ⟨h, by simp, ?_⟩
  intro names _ none hnone
  have he : none = [] := by simpa [Frame.names] using hnone
  rw [he]
  exact List.disjoint_nil_right names

theorem Unique.pop {s : Scopes} (h : s.Unique) : s.pop.Unique := by
  have hs : (s.pop.toList).Sublist s.toList := (List.dropLast_sublist s.inner).cons_cons s.global
  exact h.sublist (hs.map Frame.names)

theorem exists_innermost (s : Scopes) : ∃ outer inner, s.toList = outer ++ [inner] :=
  ⟨_, _, (List.dropLast_concat_getLast (by simp [toList] : s.toList ≠ [])).symm⟩

/-- Overwriting changes no names, and a name is added to the last frame only if no frame has it. -/
theorem boundNames_assign (order : SearchOrder) (s : Scopes) (name : String) (value : Expr) :
    boundNames (s.assign order name value).toList = boundNames s.toList ∨
      (∀ names ∈ boundNames s.toList, name ∉ names) ∧ ∃ outer inner,
        boundNames s.toList = outer ++ [inner] ∧
        boundNames (s.assign order name value).toList = outer ++ [name :: inner] := by
  unfold Scopes.assign
  cases hset : setFirst? name value (order.arrange s.toList) with
  | some frames =>
    have hn : boundNames (order.arrange frames) = boundNames s.toList := by
      rw [boundNames_arrange, boundNames_setFirst? hset, boundNames_arrange, arrange_arrange]
    have hne : order.arrange frames ≠ [] := by
      intro he
      rw [he] at hn
      simp [boundNames, toList] at hn
    left
    simp only [toList_ofList hne, hn]
  | none =>
    have hfree := setFirst?_eq_none_iff.1 hset
    obtain ⟨outer, inner, hs⟩ := s.exists_innermost
    right
    refine ⟨?_, boundNames outer, inner.names, by simp [hs, boundNames], ?_⟩
    · intro names hnames
      obtain ⟨f, hf, rfl⟩ := List.mem_map.1 hnames
      exact hfree f ((mem_arrange order).2 hf)
    · simp only [hs, bindLast_append]
      rw [toList_ofList (by simp)]
      simp [boundNames, Frame.names]

theorem Unique.assign {s : Scopes} (h : s.Unique) (order : SearchOrder) (name : String)
    (value : Expr) : (s.assign order name value).Unique := by
  unfold Unique at h ⊢
  obtain hn | ⟨hfree, outer, inner, hs, ht⟩ := boundNames_assign order s name value
  · rw [hn]
    exact h
  · rw [ht]
    rw [hs] at h hfree
    obtain ⟨houter, -, hlast⟩ := List.pairwise_append.1 h
    refine List.pairwise_append.2 ⟨houter, List.pairwise_singleton _ _, ?_⟩
    intro names hnames last hmem
    rw [List.mem_singleton.1 hmem, List.disjoint_cons_right]
    exact ⟨hfree names (by simp [hnames]), hlast names hnames inner (by simp)⟩

theorem unique_change {s : Scopes} (h : s.Unique) (order : SearchOrder) (c : Change) :
    (s.change order c).Unique := by
  cases c with
  | push => exact h.push
  | pop => exact h.pop
  | assign name value => exact h.assign order name value

theorem unique_after (order : SearchOrder) (changes : List Change) :
    (after order changes).Unique := by
  have run : ∀ s : Scopes, s.Unique → (changes.foldl (change order) s).Unique := by
    induction changes with
    | nil => exact fun s h => h
    | cons c cs ih => exact fun s h => ih _ (unique_change h order c)
  exact run empty unique_empty

/-- A search that can succeed in one place only succeeds from both ends alike. -/
private theorem findSome?_reverse {names : List Frame} {name : String}
    (h : (boundNames names).Pairwise List.Disjoint) :
    names.reverse.findSome? (fun f => f.get? name) = names.findSome? fun f => f.get? name := by
  induction names with
  | nil => rfl
  | cons f fs ih =>
    obtain ⟨hf, hfs⟩ := List.pairwise_cons.1 h
    rw [List.reverse_cons, List.findSome?_append, ih hfs]
    cases hget : f.get? name with
    | none => simp [hget]
    | some value =>
      have hname : name ∈ f.names := by
        by_contra hn
        rw [Frame.get?_eq_none_iff.2 hn] at hget
        cases hget
      have hrest : fs.findSome? (fun g => g.get? name) = none := by
        rw [List.findSome?_eq_none_iff]
        intro g hg
        exact Frame.get?_eq_none_iff.2 (hf g.names (List.mem_map_of_mem hg) hname)
      simp [hget, hrest]

private theorem setFirst?_reverse {frames : List Frame} {name : String} {value : Expr}
    (h : (boundNames frames).Pairwise List.Disjoint) :
    setFirst? name value frames.reverse = (setFirst? name value frames).map List.reverse := by
  induction frames with
  | nil => rfl
  | cons f fs ih =>
    obtain ⟨hf, hfs⟩ := List.pairwise_cons.1 h
    rw [List.reverse_cons, setFirst?_append, ih hfs]
    cases hset : f.set? name value with
    | none => cases hrest : setFirst? name value fs <;> simp [setFirst?, hset, hrest]
    | some g =>
      have hname : name ∈ f.names := by
        by_contra hn
        rw [Frame.set?_eq_none_iff.2 hn] at hset
        cases hset
      have hrest : setFirst? name value fs = none := by
        rw [setFirst?_eq_none_iff]
        exact fun g hg => hf g.names (List.mem_map_of_mem hg) hname
      simp [setFirst?, hset, hrest]

theorem Unique.lookup_eq {s : Scopes} (h : s.Unique) (order other : SearchOrder) (name : String) :
    s.lookup order name = s.lookup other name := by
  have he : s.lookup .innermostFirst name = s.lookup .outermostFirst name := findSome?_reverse h
  cases order <;> cases other <;> first | rfl | exact he | exact he.symm

theorem Unique.assign_eq {s : Scopes} (h : s.Unique) (order other : SearchOrder) (name : String)
    (value : Expr) : s.assign order name value = s.assign other name value := by
  have he : s.assign .innermostFirst name value = s.assign .outermostFirst name value := by
    simp only [Scopes.assign, SearchOrder.arrange]
    rw [setFirst?_reverse h]
    cases setFirst? name value s.toList <;> simp
  cases order <;> cases other <;> first | rfl | exact he | exact he.symm

/-- Searches from both ends find the same variables, to read them and to overwrite them. -/
def Orderless (s : Scopes) : Prop :=
  (∀ name, s.lookup .innermostFirst name = s.lookup .outermostFirst name) ∧
    ∀ name value, s.assign .innermostFirst name value = s.assign .outermostFirst name value

theorem Unique.orderless {s : Scopes} (h : s.Unique) : s.Orderless :=
  ⟨h.lookup_eq _ _, h.assign_eq _ _⟩

end Scopes
end BlockScript
