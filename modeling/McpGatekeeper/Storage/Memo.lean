import Mathlib.Data.List.Basic

namespace Memo

section Recent

variable {Key : Type} [DecidableEq Key]

/-- The keys of a history, latest first, each where it was last asked for. -/
def recent : List Key → List Key
  | [] => []
  | key :: older => key :: (recent older).filter fun other => other ≠ key

theorem nodup_recent (asked : List Key) : (recent asked).Nodup := by
  induction asked with
  | nil => exact List.nodup_nil
  | cons key older ih =>
      rw [recent, List.nodup_cons]
      exact ⟨by simp, ih.filter _⟩

theorem filter_take_of_mem {keys : List Key} (hnodup : keys.Nodup) {key : Key} {n : Nat}
    (h : key ∈ keys.take (n + 1)) :
    (keys.take (n + 1)).filter (fun other => other ≠ key) =
      (keys.filter fun other => other ≠ key).take n := by
  induction keys generalizing n with
  | nil => cases h
  | cons first keys ih =>
      obtain ⟨hfirst, hnodup⟩ := List.nodup_cons.mp hnodup
      rw [List.take_succ_cons]
      rcases eq_or_ne first key with rfl | hne
      · have hfilter : keys.filter (fun other => other ≠ first) = keys := by
          rw [List.filter_eq_self]
          intro other hother
          simpa using ne_of_mem_of_not_mem hother hfirst
        have htake : (keys.take n).filter (fun other => other ≠ first) = keys.take n := by
          rw [List.filter_eq_self]
          intro other hother
          simpa using ne_of_mem_of_not_mem (List.mem_of_mem_take hother) hfirst
        rw [List.filter_cons_of_neg (by simp), List.filter_cons_of_neg (by simp), hfilter, htake]
      · rw [List.filter_cons_of_pos (by simpa using hne),
          List.filter_cons_of_pos (by simpa using hne)]
        have hmem : key ∈ keys.take n := by
          rw [List.take_succ_cons, List.mem_cons] at h
          exact h.resolve_left hne.symm
        cases n with
        | zero => cases hmem
        | succ n => rw [ih hnodup hmem, List.take_succ_cons]

theorem take_filter_of_not_mem {keys : List Key} {key : Key} {n : Nat}
    (h : key ∉ keys.take n) :
    (keys.filter fun other => other ≠ key).take n = keys.take n := by
  induction keys generalizing n with
  | nil => rfl
  | cons first keys ih =>
      cases n with
      | zero => rfl
      | succ n =>
          rw [List.take_succ_cons, List.mem_cons, not_or] at h
          obtain ⟨hne, hrest⟩ := h
          rw [List.filter_cons_of_pos (by simpa using Ne.symm hne), List.take_succ_cons,
            List.take_succ_cons, ih hrest]

end Recent

section Cache

variable {Key Value : Type} [DecidableEq Key] (f : Key → Value) (size : Nat)

/-- A call through the cache, whose entries stand latest used first. -/
def call (key : Key) : StateM (List (Key × Value)) Value := fun cache =>
  match cache.lookup key with
  | some value => (value, (key, value) :: cache.filter fun entry => entry.1 ≠ key)
  | none => (f key, ((key, f key) :: cache).take size)

/-- What the cache holds when the keys have been asked for, latest first. -/
def contents (asked : List Key) : List (Key × Value) :=
  ((recent asked).take size).map fun key => (key, f key)

variable {f size}

theorem lookup_map {keys : List Key} {key : Key} :
    (keys.map fun key => (key, f key)).lookup key = if key ∈ keys then some (f key) else none := by
  induction keys with
  | nil => rfl
  | cons first keys ih =>
      rcases eq_or_ne key first with rfl | hne
      · simp
      · rw [List.map_cons, List.lookup_cons, beq_false_of_ne hne]
        simp [hne, ih]

theorem filter_map_pairs (keys : List Key) (key : Key) :
    (keys.map fun key => (key, f key)).filter (fun entry => entry.1 ≠ key) =
      (keys.filter fun other => other ≠ key).map fun key => (key, f key) := by
  rw [List.filter_map]
  rfl

/-- The answer is the function's, and the cache holds the keys asked for last. -/
theorem call_contents (key : Key) (asked : List Key) :
    call f size key (contents f size asked) = (f key, contents f size (key :: asked)) := by
  have hnodup := nodup_recent asked
  rw [call, contents, contents, recent, lookup_map]
  by_cases hmem : key ∈ (recent asked).take size
  · rw [if_pos hmem]
    cases size with
    | zero => cases hmem
    | succ n =>
        change (f key, (key, f key) :: _) = _
        rw [filter_map_pairs, filter_take_of_mem hnodup hmem, List.take_succ_cons, List.map_cons]
  · rw [if_neg hmem]
    cases size with
    | zero => rfl
    | succ n =>
        change (f key, List.take (n + 1) ((key, f key) :: _)) = _
        have hmem' : key ∉ (recent asked).take n := fun h =>
          hmem (List.take_subset_take_left _ (Nat.le_succ n) h)
        rw [List.take_succ_cons, List.take_succ_cons, List.map_cons, ← List.map_take,
          List.take_take, Nat.min_eq_left (Nat.le_succ n), take_filter_of_not_mem hmem']

end Cache

section Returns

variable {State α β : Type} (holds : State → Prop)

/-- Whatever admissible state it begins in, the computation returns the value and leaves an
admissible state. -/
def Returns (m : StateM State α) (value : α) : Prop :=
  ∀ s, holds s → (m s).1 = value ∧ holds (m s).2

variable {holds}

theorem Returns.pure (value : α) : Returns holds (pure value : StateM State α) value :=
  fun _ h => ⟨rfl, h⟩

theorem Returns.bind {m : StateM State α} {f : α → StateM State β} {value : α} {value' : β}
    (hm : Returns holds m value) (hf : Returns holds (f value) value') :
    Returns holds (m >>= f) value' := by
  intro s hs
  obtain ⟨hvalue, hs'⟩ := hm s hs
  change (f (m s).1 (m s).2).1 = value' ∧ holds (f (m s).1 (m s).2).2
  rw [hvalue]
  exact hf _ hs'

theorem Returns.anyM {p : α → StateM State Bool} {q : α → Bool}
    (h : ∀ item, Returns holds (p item) (q item)) (items : List α) :
    Returns holds (items.anyM p) (items.any q) := by
  induction items with
  | nil => exact .pure false
  | cons item items ih =>
      rw [List.anyM, List.any_cons]
      apply (h item).bind
      cases q item with
      | true => exact .pure true
      | false => exact ih

theorem Returns.allM {p : α → StateM State Bool} {q : α → Bool}
    (h : ∀ item, Returns holds (p item) (q item)) (items : List α) :
    Returns holds (items.allM p) (items.all q) := by
  induction items with
  | nil => exact .pure true
  | cons item items ih =>
      rw [List.allM, List.all_cons]
      apply (h item).bind
      cases q item with
      | true => exact ih
      | false => exact .pure false

theorem Returns.mapM {m : α → StateM State β} {f : α → β}
    (h : ∀ item, Returns holds (m item) (f item)) (items : List α) :
    Returns holds (items.mapM m) (items.map f) := by
  induction items with
  | nil =>
      rw [List.mapM_nil]
      exact .pure []
  | cons item items ih =>
      rw [List.mapM_cons]
      exact (h item).bind (ih.bind (.pure _))

end Returns

end Memo
