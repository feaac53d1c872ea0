import Mathlib.Data.List.Induction
import McpGatekeeper.GlobLanguage
import McpGatekeeper.RedactionWalk

namespace McpGatekeeper.RedactionLevels

open PythonText
open McpGatekeeper.Audit
open McpGatekeeper.Glob
open McpGatekeeper.GlobLanguage
open McpGatekeeper.JsonPaths
open McpGatekeeper.JsonValues
open McpGatekeeper.RedactionWalk

/-- What stands between two dots of a pattern: something without `/` and `**`. -/
structure IsLevel (level : List Char) : Prop where
  nonempty : level ≠ []
  dot : '.' ∉ level
  slash : '/' ∉ level
  double : ¬['*', '*'] <:+: level

/-- A pattern made of levels. -/
structure LevelPattern where
  levels : List (List Char)
  nonempty : levels ≠ []
  wellFormed : ∀ level ∈ levels, IsLevel level

namespace LevelPattern

variable (pattern : LevelPattern)

def text : String := String.ofList (join ['.'] pattern.levels)

/-- Each key, or index as decimal text, matches its level. -/
def Matches (steps : List Step) : Prop :=
  List.Forall₂ ToolDenotes pattern.levels (steps.map Step.text)

end LevelPattern

/-- The keys can be read off the path: none has a slash, none ends in a newline (unless
it is nothing else), and the first is not empty. -/
def Unambiguous (steps : List Step) : Prop :=
  steps.head? ≠ some (.key "") ∧
    ∀ step ∈ steps, '/' ∉ step.text ∧ ∀ line, step.text = line ++ ['\n'] → line = []

theorem toList_pathOf {path : String} (h : path ≠ "") (steps : List Step) :
    (pathOf path steps).toList = join ['/'] (path.toList :: steps.map Step.text) := by
  induction steps generalizing path with
  | nil => rfl
  | cons step steps ih =>
      have hextend : extend path step ≠ "" := fun hempty => h (extend_eq_empty_iff.mp hempty).1
      change (pathOf (extend path step) steps).toList = _
      rw [ih hextend, toList_extend h, join_append_cons, List.map_cons]

theorem toList_pathOf_key {name : String} (h : name ≠ "") (steps : List Step) :
    (pathOf "" (.key name :: steps)).toList =
      join ['/'] ((Step.key name :: steps).map Step.text) := by
  change (pathOf name steps).toList = _
  exact toList_pathOf h steps

theorem join_ne_doubleStar {levels : List (List Char)}
    (h : ∀ level ∈ levels, IsLevel level) : join ['/'] levels ≠ ['*', '*'] := by
  rcases levels with _ | ⟨level, _ | ⟨other, levels⟩⟩
  · simp [join]
  · rintro heq
    exact (h level List.mem_cons_self).double (heq ▸ List.infix_refl _)
  · intro heq
    have hslash : '/' ∈ join ['/'] (level :: other :: levels) := by simp [join_cons_cons]
    rw [heq] at hslash
    simp at hslash

theorem pathDenotes_levels {levels : List (List Char)} {value : List Char} (hne : levels ≠ [])
    (hlevels : ∀ level ∈ levels, IsLevel level) :
    PathDenotes (join ['/'] levels) value ↔
      ∃ segments, value = join ['/'] segments ∧ (∀ segment ∈ segments, '/' ∉ segment) ∧
        List.Forall₂ ToolDenotes levels segments := by
  induction levels generalizing value with
  | nil => exact absurd rfl hne
  | cons level levels ih =>
      obtain ⟨hlevel, hrest⟩ := List.forall_mem_cons.mp hlevels
      cases levels with
      | nil =>
          change PathDenotes level value ↔ _
          rw [← List.append_nil level, pathDenotes_append hlevel.slash hlevel.double (by simp),
            List.append_nil]
          constructor
          · rintro ⟨segment, _, rfl, hslash, hdenotes, rfl⟩
            exact ⟨[segment], List.append_nil segment, by simpa using hslash,
              .cons hdenotes .nil⟩
          · rintro ⟨_, rfl, hslash, _ | ⟨hdenotes, _ | _⟩⟩
            exact ⟨_, [], (List.append_nil _).symm, hslash _ List.mem_cons_self, hdenotes, rfl⟩
      | cons other levels =>
          have hjoin : ∀ value, PathDenotes (['/'] ++ join ['/'] (other :: levels)) value ↔
              ∃ rest, value = '/' :: rest ∧ PathDenotes (join ['/'] (other :: levels)) rest :=
            fun value => pathDenotes_plain (by decide) (by decide) fun _ =>
              join_ne_doubleStar hrest
          rw [join_cons_cons, List.append_assoc,
            pathDenotes_append hlevel.slash hlevel.double (by simp)]
          simp only [hjoin, ih (by simp) hrest]
          constructor
          · rintro ⟨segment, _, rfl, hslash, hdenotes, _, rfl, segments, rfl, hsegments, hall⟩
            rcases hall with _ | ⟨hother, hall⟩
            exact ⟨_ :: _ :: _, by simp [join_cons_cons],
              List.forall_mem_cons.mpr ⟨hslash, hsegments⟩, .cons hdenotes (.cons hother hall)⟩
          · rintro ⟨_, rfl, hsegments, _ | ⟨hdenotes, _ | ⟨hother, hall⟩⟩⟩
            obtain ⟨hslash, hsegments⟩ := List.forall_mem_cons.mp hsegments
            exact ⟨_, _, by simp [join_cons_cons], hslash, hdenotes, _, rfl, _, rfl, hsegments,
              .cons hother hall⟩

theorem translate_text (pattern : LevelPattern) :
    translate [pattern.text] = [String.ofList (join ['/'] pattern.levels)] := by
  have hreplace : replace '.' '/' pattern.text.toList = join ['/'] pattern.levels := by
    rw [LevelPattern.text, String.toList_ofList]
    exact replace_join fun level hlevel => (pattern.wellFormed level hlevel).dot
  exact congrArg (fun text => [String.ofList text]) hreplace

theorem masks_text_iff {pattern : LevelPattern} {path : String} :
    masks (translate [pattern.text]) path = true ↔
      path ≠ "" ∧ (PathDenotes (join ['/'] pattern.levels) path.toList ∨
        ∃ line, path.toList = line ++ ['\n'] ∧
          PathDenotes (join ['/'] pattern.levels) line) := by
  rw [translate_text, masks_singleton, matchPath_iff, String.toList_ofList]

theorem pathDenotes_text_iff {pattern : LevelPattern} {texts : List (List Char)}
    (hne : texts ≠ []) (h : ∀ text ∈ texts, '/' ∉ text) :
    PathDenotes (join ['/'] pattern.levels) (join ['/'] texts) ↔
      List.Forall₂ ToolDenotes pattern.levels texts := by
  rw [pathDenotes_levels pattern.nonempty pattern.wellFormed]
  constructor
  · rintro ⟨segments, heq, hsegments, hall⟩
    have hsegments' : segments ≠ [] := by
      rintro rfl
      exact pattern.nonempty (List.forall₂_nil_right_iff.mp hall)
    have hsplit : texts = segments := by
      rw [← split_join hne h, heq, split_join hsegments' hsegments]
    rwa [hsplit]
  · intro hall
    exact ⟨texts, rfl, h, hall⟩

theorem forall₂_concat_iff {α β : Type} {R : α → β → Prop} {as : List α} {bs : List β} {a : α}
    {b : β} : List.Forall₂ R (as ++ [a]) (bs ++ [b]) ↔ List.Forall₂ R as bs ∧ R a b := by
  rw [← List.forall₂_reverse_iff, List.reverse_append, List.reverse_append]
  change List.Forall₂ R (a :: as.reverse) (b :: bs.reverse) ↔ _
  rw [List.forall₂_cons, List.forall₂_reverse_iff, and_comm]

theorem matches_of_line {pattern : LevelPattern} {texts : List (List Char)} {line : List Char}
    (hne : texts ≠ []) (hslash : ∀ text ∈ texts, '/' ∉ text)
    (hnewline : ∀ text ∈ texts, ∀ front, text = front ++ ['\n'] → front = [])
    (hline : join ['/'] texts = line ++ ['\n'])
    (h : PathDenotes (join ['/'] pattern.levels) line) :
    List.Forall₂ ToolDenotes pattern.levels texts := by
  obtain ⟨init, last, rfl⟩ := (List.eq_nil_or_concat texts).resolve_left hne
  obtain ⟨levels, level, hlevels⟩ :=
    (List.eq_nil_or_concat pattern.levels).resolve_left pattern.nonempty
  rw [List.concat_eq_append] at hslash hnewline hline hlevels ⊢
  obtain ⟨front, rfl, rfl⟩ := concat_of_join (by decide) hline
  obtain rfl := hnewline _ (by simp) front rfl
  have hslash' : ∀ text ∈ init ++ [[]], '/' ∉ text := by
    intro text hmem
    rcases List.mem_append.mp hmem with hmem | hmem
    · exact hslash text (List.mem_append_left _ hmem)
    · simp [List.mem_singleton.mp hmem]
  rw [pathDenotes_text_iff (by simp) hslash', hlevels, forall₂_concat_iff] at h
  rw [hlevels, forall₂_concat_iff]
  have hlevel : level ≠ [] := (pattern.wellFormed level (by simp [hlevels])).nonempty
  exact ⟨h.1, toolDenotes_of_nil hlevel h.2 _⟩

/-- On an unambiguous path a pattern is matched level by level. -/
theorem masks_iff_matches {pattern : LevelPattern} {name : String} {steps : List Step}
    (h : Unambiguous (.key name :: steps)) :
    masks (translate [pattern.text]) (pathOf "" (.key name :: steps)) = true ↔
      pattern.Matches (.key name :: steps) := by
  obtain ⟨hfirst, hsteps⟩ := h
  have hname : name ≠ "" := by simpa using hfirst
  have hpath : pathOf "" (.key name :: steps) ≠ "" := fun hempty =>
    hname (by simpa using (pathOf_eq_empty_iff.mp hempty).2 _ List.mem_cons_self)
  have hslash : ∀ text ∈ (Step.key name :: steps).map Step.text, '/' ∉ text := by
    intro text hmem
    obtain ⟨step, hstep, rfl⟩ := List.mem_map.mp hmem
    exact (hsteps step hstep).1
  have hnewline : ∀ text ∈ (Step.key name :: steps).map Step.text,
      ∀ front, text = front ++ ['\n'] → front = [] := by
    intro text hmem
    obtain ⟨step, hstep, rfl⟩ := List.mem_map.mp hmem
    exact (hsteps step hstep).2
  rw [masks_text_iff, and_iff_right hpath, toList_pathOf_key hname,
    pathDenotes_text_iff (by simp) hslash, LevelPattern.Matches]
  constructor
  · rintro (hmatches | ⟨line, hline, hdenotes⟩)
    · exact hmatches
    · exact matches_of_line (by simp) hslash hnewline hline hdenotes
  · exact .inl

theorem exists_key_of_descend {fields : JsonObject} {step : Step} {steps : List Step}
    {value : Json} (h : descend (.obj fields) (step :: steps) = some value) :
    ∃ name, step = .key name := by
  obtain ⟨inner, hinner, -⟩ := descend_cons.mp h
  cases step with
  | key name => exact ⟨name, rfl⟩
  | item index => cases hinner

theorem descend_of_isPrefix {json value : Json} {above steps : List Step}
    (h : descend json steps = some value) (habove : above <+: steps) :
    ∃ inner, descend json above = some inner ∧
      (inner = .str redacted → above = steps ∧ value = .str redacted) := by
  obtain ⟨rest, rfl⟩ := habove
  obtain ⟨inner, hinner, hrest⟩ := descend_append.mp h
  refine ⟨inner, hinner, ?_⟩
  rintro rfl
  cases rest with
  | nil => exact ⟨(List.append_nil above).symm, (Option.some.inj hrest).symm⟩
  | cons step rest =>
      obtain ⟨_, hchild, -⟩ := descend_cons.mp hrest
      cases hchild

theorem masks_iff_of_descend {pattern : LevelPattern} {arguments : JsonObject}
    {steps : List Step} {value : Json} (hvalue : descend (.obj arguments) steps = some value)
    (h : Unambiguous steps) :
    masks (translate [pattern.text]) (pathOf "" steps) = true ↔ pattern.Matches steps := by
  cases steps with
  | nil =>
      refine iff_of_false (by rw [pathOf, List.foldl_nil, masks_empty]; simp) fun hmatches => ?_
      exact pattern.nonempty (List.forall₂_nil_right_iff.mp hmatches)
  | cons step steps =>
      obtain ⟨name, rfl⟩ := exists_key_of_descend hvalue
      exact masks_iff_matches h

theorem length_of_matches {pattern : LevelPattern} {steps : List Step}
    (h : pattern.Matches steps) : steps.length = pattern.levels.length := by
  rw [h.length_eq, List.length_map]

theorem unambiguous_of_isPrefix {above steps : List Step} (h : Unambiguous steps)
    (habove : above <+: steps) : Unambiguous above := by
  refine ⟨?_, fun step hstep => h.2 step (habove.subset hstep)⟩
  cases above with
  | nil => simp
  | cons step above =>
      obtain ⟨rest, rfl⟩ := habove
      exact h.1

theorem not_masks_above {pattern : LevelPattern} {arguments : JsonObject}
    {steps above : List Step} {value : Json}
    (hvalue : descend (.obj arguments) above = some value) (h : Unambiguous above)
    (hlength : steps.length = pattern.levels.length) (habove : above <+: steps)
    (hne : above ≠ steps) : masks (translate [pattern.text]) (pathOf "" above) = false := by
  rw [Bool.eq_false_iff]
  intro hmasks
  have hmatches := (masks_iff_of_descend hvalue h).mp hmasks
  exact hne (habove.eq_of_length ((length_of_matches hmatches).trans hlength.symm))

/-- Every pattern of levels puts the mark at the positions it matches level by level, and
leaves it elsewhere only where it stood before and nothing above is matched. -/
def MaskedByLevels (arguments : JsonObject) : Prop :=
  ∀ (pattern : LevelPattern) (steps : List Step) (value : Json),
    descend (.obj arguments) steps = some value →
      (descend (.obj (redactArguments arguments [pattern.text])) steps = some (.str redacted) ↔
        pattern.Matches steps ∨ value = .str redacted ∧
          ∀ above, above <+: steps → above ≠ steps → ¬pattern.Matches above)

theorem maskedByLevels_of_unambiguous {arguments : JsonObject}
    (h : ∀ steps value, descend (.obj arguments) steps = some value → value ≠ .str redacted →
      Unambiguous steps) : MaskedByLevels arguments := by
  intro pattern steps value hvalue
  rw [obj_redactArguments, mark_iff_reached hvalue]
  -- what stands above something else is no mark
  have htest (above : List Step) (habove : above <+: steps) (hne : above ≠ steps) :
      masks (translate [pattern.text]) (pathOf "" above) = true ↔ pattern.Matches above := by
    obtain ⟨inner, hinner, hmark⟩ := descend_of_isPrefix hvalue habove
    exact masks_iff_of_descend hinner (h above inner hinner fun heq => hne (hmark heq).1)
  have hreached : Reached (translate [pattern.text]) "" steps ↔
      ∀ above, above <+: steps → above ≠ steps → ¬pattern.Matches above := by
    refine forall_congr' fun above => forall_congr' fun habove => forall_congr' fun hne => ?_
    rw [← htest above habove hne, Bool.not_eq_true]
  have hunmatched : pattern.Matches steps →
      ∀ above, above <+: steps → above ≠ steps → ¬pattern.Matches above := by
    intro hmatches above habove hne hmatches'
    exact hne (habove.eq_of_length
      ((length_of_matches hmatches').trans (length_of_matches hmatches).symm))
  rw [hreached]
  rcases eq_or_ne value (.str redacted) with hmark | hmark
  · constructor
    · rintro ⟨-, hnone⟩
      exact .inr ⟨hmark, hnone⟩
    · rintro (hmatches | ⟨-, hnone⟩)
      · exact ⟨.inr hmark, hunmatched hmatches⟩
      · exact ⟨.inr hmark, hnone⟩
  · rw [or_iff_left hmark, or_iff_left fun hpair => hmark hpair.1,
      masks_iff_of_descend hvalue (h steps value hvalue hmark)]
    exact and_iff_left_of_imp hunmatched

theorem isLevel_star : IsLevel ['*'] := by
  constructor <;> decide

theorem isLevel_questions {n : Nat} (h : n ≠ 0) : IsLevel (List.replicate n '?') := by
  have hmem : ∀ c ∈ List.replicate n '?', c = '?' := fun c => List.eq_of_mem_replicate
  constructor
  · simpa using h
  · exact fun hdot => absurd (hmem _ hdot) (by decide)
  · exact fun hslash => absurd (hmem _ hslash) (by decide)
  · exact fun hdouble => absurd (hmem '*' (hdouble.subset List.mem_cons_self)) (by decide)

/-- Any `n` keys, and then one that `level` denotes. -/
def starred (n : Nat) {level : List Char} (h : IsLevel level) : LevelPattern where
  levels := List.replicate n ['*'] ++ [level]
  nonempty := by simp
  wellFormed other hother := by
    rcases List.mem_append.mp hother with hmem | hmem
    · rw [List.eq_of_mem_replicate hmem]
      exact isLevel_star
    · rwa [List.mem_singleton.mp hmem]

theorem forall₂_starred {level : List Char} (h : IsLevel level)
    (texts : List (List Char)) (last : List Char) :
    List.Forall₂ ToolDenotes (starred texts.length h).levels (texts ++ [last]) ↔
      ToolDenotes level last := by
  have hstars : List.Forall₂ ToolDenotes (List.replicate texts.length ['*']) texts := by
    induction texts with
    | nil => exact .nil
    | cons text texts ih => exact .cons (toolDenotes_star text) ih
  rw [starred, forall₂_concat_iff, and_iff_right hstars]

theorem matches_starred {level : List Char} {h : IsLevel level} {init : List Step}
    {last : Step} :
    (starred init.length h).Matches (init ++ [last]) ↔ ToolDenotes level last.text := by
  have hstarred := forall₂_starred h (init.map Step.text) last.text
  rw [List.length_map] at hstarred
  rw [LevelPattern.Matches, List.map_append]
  exact hstarred

theorem count_of_pathDenotes {pattern : LevelPattern} {value : List Char}
    (h : PathDenotes (join ['/'] pattern.levels) value) :
    value.count '/' + 1 = pattern.levels.length := by
  obtain ⟨segments, rfl, hslash, hall⟩ :=
    (pathDenotes_levels pattern.nonempty pattern.wellFormed).mp h
  have hne : segments ≠ [] := by
    rintro rfl
    exact pattern.nonempty (List.forall₂_nil_right_iff.mp hall)
  have hzero : (segments.map (List.count '/')).sum = 0 := by
    rw [List.sum_eq_zero_iff_forall_eq_nat]
    intro n hn
    obtain ⟨segment, hsegment, rfl⟩ := List.mem_map.mp hn
    exact List.count_eq_zero.mpr (hslash segment hsegment)
  rw [count_join hne, hzero, hall.length_eq, Nat.add_zero]

theorem not_masks_of_slash {pattern : LevelPattern} {path : String} {texts : List (List Char)}
    (hpath : path.toList = join ['/'] texts) (hlength : texts.length = pattern.levels.length)
    {text : List Char} (hmem : text ∈ texts) (hslash : '/' ∈ text) :
    masks (translate [pattern.text]) path = false := by
  have hcount : texts.length < (join ['/'] texts).count '/' + 1 := by
    have hsum : 0 < (texts.map (List.count '/')).sum :=
      List.sum_pos_iff_exists_pos_nat.mpr ⟨text.count '/', List.mem_map.mpr ⟨text, hmem, rfl⟩,
        List.count_pos_iff.mpr hslash⟩
    rw [count_join (List.ne_nil_of_mem hmem)]
    omega
  rw [Bool.eq_false_iff, ne_eq, masks_text_iff, hpath]
  rintro ⟨-, hdenotes | ⟨line, hline, hdenotes⟩⟩
  · have hlevels := count_of_pathDenotes hdenotes
    omega
  · have hlevels := count_of_pathDenotes hdenotes
    rw [hline, List.count_append] at hcount
    have hnewline : ['\n'].count '/' = 0 := by decide
    omega

section Necessity

variable {arguments : JsonObject}

variable (h : MaskedByLevels arguments)
include h

theorem masks_and_reached_iff {pattern : LevelPattern} {steps : List Step} {value : Json}
    (hvalue : descend (.obj arguments) steps = some value) (hne : value ≠ .str redacted) :
    masks (translate [pattern.text]) (pathOf "" steps) = true ∧
      Reached (translate [pattern.text]) "" steps ↔ pattern.Matches steps := by
  have hmark := h pattern steps value hvalue
  rwa [obj_redactArguments, mark_iff_reached hvalue, or_iff_left hne,
    or_iff_left fun hpair => hne hpair.1] at hmark

theorem head_ne_empty {steps : List Step} {value : Json}
    (hvalue : descend (.obj arguments) steps = some value) (hne : value ≠ .str redacted) :
    steps.head? ≠ some (.key "") := by
  rcases steps with _ | ⟨step, steps⟩
  · simp
  · intro heq
    obtain rfl : step = .key "" := by simpa using heq
    have habove : [Step.key ""] <+: .key "" :: steps :=
      List.cons_prefix_cons.mpr ⟨rfl, List.nil_prefix⟩
    obtain ⟨inner, hinner, hmark⟩ := descend_of_isPrefix hvalue habove
    have hmatches : (starred 0 isLevel_star).Matches [.key ""] :=
      (forall₂_starred isLevel_star [] _).mpr (toolDenotes_star _)
    have hmasks :=
      ((masks_and_reached_iff h hinner fun heq => hne (hmark heq).2).mpr hmatches).1
    cases hmasks

theorem toList_pathOf_of_descend {steps : List Step} {value : Json}
    (hvalue : descend (.obj arguments) steps = some value) (hne : value ≠ .str redacted)
    (hsteps : steps ≠ []) :
    (pathOf "" steps).toList = join ['/'] (steps.map Step.text) := by
  have hhead := head_ne_empty h hvalue hne
  obtain ⟨step, steps, rfl⟩ := List.exists_cons_of_ne_nil hsteps
  obtain ⟨name, rfl⟩ := exists_key_of_descend hvalue
  exact toList_pathOf_key (by simpa using hhead) steps

theorem last_no_slash {init : List Step} {last : Step} {value : Json}
    (hvalue : descend (.obj arguments) (init ++ [last]) = some value)
    (hne : value ≠ .str redacted) : '/' ∉ last.text := by
  intro hslash
  have hmatches : (starred init.length isLevel_star).Matches (init ++ [last]) :=
    matches_starred.mpr (toolDenotes_star _)
  have hmasks := ((masks_and_reached_iff h hvalue hne).mpr hmatches).1
  rw [not_masks_of_slash (toList_pathOf_of_descend h hvalue hne (by simp)) (by simp [starred])
    (List.mem_map.mpr ⟨last, by simp, rfl⟩) hslash] at hmasks
  cases hmasks

theorem last_no_newline {init : List Step} {last : Step} {value : Json}
    (hvalue : descend (.obj arguments) (init ++ [last]) = some value)
    (hmark : value ≠ .str redacted) (hinit : Unambiguous init) {front : List Char}
    (hlast : last.text = front ++ ['\n']) : front = [] := by
  refine Classical.byContradiction fun hne => ?_
  have hlevel : IsLevel (List.replicate front.length '?') := isLevel_questions (by simpa using hne)
  have hslash : ∀ text ∈ init.map Step.text ++ [front], '/' ∉ text := by
    intro text hmem
    rcases List.mem_append.mp hmem with hmem | hmem
    · obtain ⟨step, hstep, rfl⟩ := List.mem_map.mp hmem
      exact (hinit.2 step hstep).1
    · rw [List.mem_singleton.mp hmem]
      exact fun hmem => last_no_slash h hvalue hmark (hlast ▸ List.mem_append_left _ hmem)
  have hpath := toList_pathOf_of_descend h hvalue hmark (by simp)
  rw [List.map_append, List.map_cons, List.map_nil, hlast, join_append_singleton] at hpath
  have hmasks : masks (translate [(starred init.length hlevel).text])
      (pathOf "" (init ++ [last])) = true := by
    refine masks_text_iff.mpr ⟨fun hempty => ?_, .inr ⟨_, hpath, ?_⟩⟩
    · rw [hempty] at hpath
      simp at hpath
    · rw [pathDenotes_text_iff (by simp) hslash]
      have hdenotes := (forall₂_starred hlevel (init.map Step.text) _).mpr
        (toolDenotes_questions.mpr (Eq.refl front.length))
      rwa [List.length_map] at hdenotes
  have hreached : Reached (translate [(starred init.length hlevel).text]) ""
      (init ++ [last]) := by
    intro above habove hne
    have habove' := (List.prefix_concat_iff.mp habove).resolve_left hne
    obtain ⟨inner, hinner, -⟩ := descend_of_isPrefix hvalue habove
    exact not_masks_above hinner (unambiguous_of_isPrefix hinit habove') (by simp [starred])
      habove hne
  have hmatches := matches_starred.mp
    ((masks_and_reached_iff h hvalue hmark).mp ⟨hmasks, hreached⟩)
  rw [hlast, toolDenotes_questions] at hmatches
  simp at hmatches

theorem unambiguous_of_maskedByLevels {steps : List Step} {value : Json}
    (hvalue : descend (.obj arguments) steps = some value) (hne : value ≠ .str redacted) :
    Unambiguous steps := by
  induction steps using List.reverseRecOn generalizing value with
  | nil => exact ⟨by simp, by simp⟩
  | append_singleton init last ih =>
      obtain ⟨inner, hinner, hmark⟩ :=
        descend_of_isPrefix hvalue (List.prefix_append init [last])
      have hinit := ih hinner fun heq => hne (hmark heq).2
      refine ⟨head_ne_empty h hvalue hne, fun step hstep => ?_⟩
      rcases List.mem_append.mp hstep with hstep | hstep
      · exact hinit.2 step hstep
      · obtain rfl := List.mem_singleton.mp hstep
        exact ⟨last_no_slash h hvalue hne, fun front => last_no_newline h hvalue hne hinit⟩

end Necessity

/-- Patterns of levels mean levels exactly when every position, unless it has the mark
already, can be read off its path. -/
theorem maskedByLevels_iff (arguments : JsonObject) :
    MaskedByLevels arguments ↔
      ∀ steps value, descend (.obj arguments) steps = some value → value ≠ .str redacted →
        Unambiguous steps := by
  constructor
  · intro h steps value hvalue hne
    exact unambiguous_of_maskedByLevels h hvalue hne
  · exact maskedByLevels_of_unambiguous

theorem isLevel_token : IsLevel "token".toList := by
  constructor <;> decide

/-- The pattern `*.token`. -/
def anyToken : LevelPattern := starred 1 isLevel_token

/-- A parent with a slash in its key. -/
def slashed : JsonObject := [("a/b", .obj [("token", .str "t")])]

/-- The token is one level down, and is let through. -/
theorem slashed_token_kept :
    redactArguments slashed ["*.token"] = slashed ∧ ¬MaskedByLevels slashed := by
  have hkept : redactArguments slashed ["*.token"] = slashed := by decide
  refine ⟨hkept, fun h => ?_⟩
  have hmatches : anyToken.Matches [.key "a/b", .key "token"] :=
    .cons (toolDenotes_star _) (.cons ((toolDenotes_literal (by simp)).mpr rfl) .nil)
  have hmasked := (h anyToken [.key "a/b", .key "token"] (.str "t") rfl).mpr (.inl hmatches)
  have htext : anyToken.text = "*.token" := by decide
  rw [htext, hkept] at hmasked
  revert hmasked
  decide

end McpGatekeeper.RedactionLevels
