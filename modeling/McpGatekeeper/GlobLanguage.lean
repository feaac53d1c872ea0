import Mathlib.Data.List.Forall2
import McpGatekeeper.Glob

namespace McpGatekeeper.GlobLanguage

open Regex
open McpGatekeeper.Glob

/-- The fragment a character becomes when nothing is looked ahead for. -/
def fragment : Char → Token
  | '*' => .star
  | '?' => .question
  | '/' => .slash
  | c => .escaped c

theorem fragment_of_plain {c : Char} (hstar : c = '*' → False) (hquestion : c = '?' → False)
    (hslash : c = '/' → False) : fragment c = .escaped c := by
  unfold fragment
  split
  · exact (hstar rfl).elim
  · exact (hquestion rfl).elim
  · exact (hslash rfl).elim
  · rfl

/-- What one character of a tool pattern stands for. -/
def Stands (c : Char) (piece : List Char) : Prop :=
  if c = '*' then True
  else if c = '?' then ∃ d, piece = [d]
  else piece = [c]

/-- The name splits into consecutive pieces, one for each character. -/
def ToolDenotes (pattern name : List Char) : Prop :=
  ∃ pieces : List (List Char), name = pieces.flatten ∧ List.Forall₂ Stands pattern pieces

theorem compileLoop_tool (pattern : List Char) (out : List Token) :
    compileLoop false pattern out = out ++ pattern.map fragment := by
  fun_induction compileLoop false pattern out with
  | case1 out => simp
  | case2 => contradiction
  | case3 => contradiction
  | case4 rest out _ ih => simp [ih, fragment]
  | case5 rest out _ ih => simp [ih, fragment]
  | case6 rest out ih => simp [ih, fragment]
  | case7 rest out ih => simp [ih, fragment]
  | case8 c rest out _ hstar hquestion hslash ih =>
      simp [ih, fragment_of_plain hstar hquestion hslash]

theorem takes_tool {c : Char} {piece : List Char} :
    ((fragment c).atom false).Takes piece ↔ Stands c piece := by
  unfold fragment
  split
  · simp [Token.atom, Atom.Takes, Stands]
  · simp [Token.atom, Atom.Takes, Stands]
  · simp [Token.atom, Atom.Takes, Stands]
  · rename_i hstar hquestion _
    rw [Stands, if_neg hstar, if_neg hquestion]
    simp [Token.atom, Atom.Takes]

theorem describes_tool {pattern name : List Char} :
    Describes (compile false pattern) name ↔ ToolDenotes pattern name := by
  rw [compile, compileLoop_tool, List.nil_append, List.map_map, describes_iff_pieces]
  simp only [ToolDenotes, List.forall₂_map_left_iff, Function.comp_apply, takes_tool]

theorem matchTool_iff {pattern name : String} :
    matchTool pattern name = true ↔
      ToolDenotes pattern.toList name.toList ∨
        ∃ line, name.toList = line ++ ['\n'] ∧ ToolDenotes pattern.toList line := by
  simp only [matchTool, matchAtoms_iff_describes, describes_tool]

/-- A pattern denotes the line before a final newline, and not the newline with it. -/
def DenotesLine (pattern name : List Char) : Prop :=
  ∃ line, name = line ++ ['\n'] ∧ ToolDenotes pattern line ∧ ¬ToolDenotes pattern name

/-- The names that are accepted are the names that are denoted, but for a denoted
line with a newline after it. -/
theorem matchTool_iff_denotes (pattern name : String) :
    (matchTool pattern name = true ↔ ToolDenotes pattern.toList name.toList) ↔
      ¬DenotesLine pattern.toList name.toList := by
  rw [matchTool_iff]
  constructor
  · rintro h ⟨line, hline, hdenotes, hnot⟩
    exact hnot (h.mp (.inr ⟨line, hline, hdenotes⟩))
  · intro h
    refine ⟨?_, .inl⟩
    rintro (hdenotes | ⟨line, hline, hdenotes⟩)
    · exact hdenotes
    · exact Classical.byContradiction fun hnot => h ⟨line, hline, hdenotes, hnot⟩

theorem toolDenotes_nil {name : List Char} : ToolDenotes [] name ↔ name = [] := by
  constructor
  · rintro ⟨_, rfl, _ | _⟩
    rfl
  · rintro rfl
    exact ⟨[], rfl, .nil⟩

theorem toolDenotes_cons {c : Char} {pattern name : List Char} :
    ToolDenotes (c :: pattern) name ↔
      ∃ piece rest, name = piece ++ rest ∧ Stands c piece ∧ ToolDenotes pattern rest := by
  constructor
  · rintro ⟨_, rfl, _ | ⟨hpiece, hpieces⟩⟩
    exact ⟨_, _, rfl, hpiece, _, rfl, hpieces⟩
  · rintro ⟨piece, _, rfl, hpiece, pieces, rfl, hpieces⟩
    exact ⟨piece :: pieces, rfl, .cons hpiece hpieces⟩

theorem toolDenotes_of_nil {pattern : List Char} (hne : pattern ≠ [])
    (h : ToolDenotes pattern []) (name : List Char) : ToolDenotes pattern name := by
  obtain ⟨c, pattern, rfl⟩ := List.exists_cons_of_ne_nil hne
  obtain ⟨piece, rest, heq, hstands, hrest⟩ := toolDenotes_cons.mp h
  obtain ⟨rfl, rfl⟩ := List.append_eq_nil_iff.mp heq.symm
  have hstar : c = '*' := by
    rw [Stands] at hstands
    split at hstands
    · assumption
    · split at hstands <;> simp at hstands
  exact toolDenotes_cons.mpr ⟨name, [], (List.append_nil name).symm, by simp [Stands, hstar],
    hrest⟩

theorem toolDenotes_star (name : List Char) : ToolDenotes ['*'] name :=
  toolDenotes_cons.mpr ⟨name, [], (List.append_nil name).symm, by simp [Stands],
    toolDenotes_nil.mpr rfl⟩

theorem toolDenotes_questions {n : Nat} {name : List Char} :
    ToolDenotes (List.replicate n '?') name ↔ name.length = n := by
  induction n generalizing name with
  | zero => exact toolDenotes_nil.trans List.length_eq_zero_iff.symm
  | succ n ih =>
      rw [List.replicate_succ, toolDenotes_cons]
      simp only [Stands, ih]
      constructor
      · rintro ⟨_, rest, rfl, ⟨d, rfl⟩, rfl⟩
        rfl
      · intro hlength
        obtain ⟨d, rest, rfl⟩ := List.exists_cons_of_length_eq_add_one hlength
        exact ⟨[d], rest, rfl, ⟨d, rfl⟩, by simpa using hlength⟩

theorem toolDenotes_literal {pattern name : List Char}
    (h : ∀ c ∈ pattern, c ≠ '*' ∧ c ≠ '?') : ToolDenotes pattern name ↔ name = pattern := by
  induction pattern generalizing name with
  | nil => exact toolDenotes_nil
  | cons c pattern ih =>
      obtain ⟨⟨hstar, hquestion⟩, hrest⟩ := List.forall_mem_cons.mp h
      simp [toolDenotes_cons, Stands, hstar, hquestion, ih hrest]

theorem not_matchTool_iff_denotes :
    ¬(matchTool "fs__read" "fs__read\n" = true ↔
      ToolDenotes "fs__read".toList "fs__read\n".toList) := by
  rw [toolDenotes_literal (by simp)]
  decide

/-- The language of a path pattern, read from the left. -/
def PathDenotes : List Char → List Char → Prop
  | [], value => value = []
  | ['/', '*', '*'], value => value = [] ∨ ∃ rest, value = '/' :: rest
  | '*' :: '*' :: pattern, value => ∃ run rest, value = run ++ rest ∧ PathDenotes pattern rest
  | '*' :: pattern, value =>
      ∃ run rest, value = run ++ rest ∧ '/' ∉ run ∧ PathDenotes pattern rest
  | '?' :: pattern, value => ∃ c rest, value = c :: rest ∧ c ≠ '/' ∧ PathDenotes pattern rest
  | c :: pattern, value => ∃ rest, value = c :: rest ∧ PathDenotes pattern rest

/-- The fragments of a path pattern, found by looking ahead only. -/
def pathTokens : List Char → List Token
  | [] => []
  | ['/', '*', '*'] => [.optionalTail]
  | '*' :: '*' :: pattern => .anything :: pathTokens pattern
  | c :: pattern => fragment c :: pathTokens pattern

theorem pathTokens_cons {c : Char} {pattern : List Char}
    (hdouble : c = '*' → ∀ rest, pattern ≠ '*' :: rest)
    (htail : c = '/' → pattern ≠ ['*', '*']) :
    pathTokens (c :: pattern) = fragment c :: pathTokens pattern := by
  rw [pathTokens]
  · rintro rfl rfl
    exact htail rfl rfl
  · rintro rest rfl rfl
    exact hdouble rfl rest rfl

/-- Looking back at the slash that was emitted comes to looking ahead from it. -/
theorem compileLoop_path (pattern : List Char) (out : List Token)
    (h : ¬(out.getLast? = some .slash ∧ pattern = ['*', '*'])) :
    compileLoop true pattern out = out ++ pathTokens pattern := by
  fun_induction compileLoop true pattern out with
  | case1 out => simp [pathTokens]
  | case2 rest out _ htail =>
      obtain ⟨hout, rfl⟩ := htail
      exact absurd ⟨hout, rfl⟩ h
  | case3 rest out _ _ ih => simp [ih, pathTokens]
  | case4 => contradiction
  | case5 rest out hnext ih =>
      rw [ih (by simp), pathTokens_cons (fun _ _ => hnext _) (by simp), fragment]
      simp
  | case6 rest out ih =>
      rw [ih (by simp), pathTokens_cons (by simp) (by simp), fragment]
      simp
  | case7 rest out ih =>
      rcases eq_or_ne rest ['*', '*'] with rfl | hne
      · simp [compileLoop, pathTokens]
      · rw [ih (by simp [hne]), pathTokens_cons (by simp) (fun _ => hne), fragment]
        simp
  | case8 c rest out _ hstar hquestion hslash ih =>
      rw [ih (by simp), pathTokens_cons (fun hc => (hstar hc).elim)
        (fun hc => (hslash hc).elim), fragment_of_plain hstar hquestion hslash]
      simp

theorem takes_path_star {piece : List Char} :
    (Token.star.atom true).Takes piece ↔ '/' ∉ piece := by
  simp only [Token.atom, Atom.Takes, Bool.not_true, Bool.false_or, bne_iff_ne]
  exact ⟨fun h hmem => h _ hmem rfl, fun h c hc heq => h (heq ▸ hc)⟩

theorem describes_path {pattern value : List Char} :
    Describes ((pathTokens pattern).map (Token.atom true)) value ↔ PathDenotes pattern value := by
  fun_induction PathDenotes pattern value with
  | case1 value => rfl
  | case2 value => simp [pathTokens, describes_singleton, Token.atom, Atom.Takes]
  | case3 pattern value ih => simp [pathTokens, Describes, Token.atom, Atom.Takes, ih]
  | case4 pattern value hnext ih =>
      rw [pathTokens_cons (fun _ _ => hnext _) (by simp)]
      simp only [fragment, List.map_cons, Describes, takes_path_star, ih]
  | case5 pattern value ih =>
      rw [pathTokens_cons (by simp) (by simp)]
      simp only [fragment, List.map_cons, Describes, Token.atom, Atom.Takes, ih]
      constructor
      · rintro ⟨_, rest, rfl, ⟨c, rfl, hc⟩, hrest⟩
        exact ⟨c, rest, rfl, by simpa using hc, hrest⟩
      · rintro ⟨c, rest, rfl, hc, hrest⟩
        exact ⟨[c], rest, rfl, ⟨c, rfl, by simpa using hc⟩, hrest⟩
  | case6 c pattern value htail _ hstar hquestion ih =>
      have htakes (piece : List Char) :
          ((fragment c).atom true).Takes piece ↔ piece = [c] := by
        unfold fragment
        split
        · exact (hstar rfl).elim
        · exact (hquestion rfl).elim
        · simp [Token.atom, Atom.Takes]
        · simp [Token.atom, Atom.Takes]
      rw [pathTokens_cons (fun hc => (hstar hc).elim) htail]
      simp [Describes, htakes, ih]

theorem pathDenotes_plain {c : Char} {pattern value : List Char} (hstar : c ≠ '*')
    (hquestion : c ≠ '?') (htail : c = '/' → pattern ≠ ['*', '*']) :
    PathDenotes (c :: pattern) value ↔ ∃ rest, value = c :: rest ∧ PathDenotes pattern rest := by
  rw [PathDenotes]
  · exact htail
  · exact fun _ hc _ => hstar hc
  · exact hstar
  · exact hquestion

theorem pathDenotes_star {pattern value : List Char} (h : ∀ rest, pattern ≠ '*' :: rest) :
    PathDenotes ('*' :: pattern) value ↔
      ∃ run rest, value = run ++ rest ∧ '/' ∉ run ∧ PathDenotes pattern rest := by
  rw [PathDenotes]
  exact h

theorem pathDenotes_literal {pattern value : List Char}
    (h : ∀ c ∈ pattern, c ≠ '*' ∧ c ≠ '?') : PathDenotes pattern value ↔ value = pattern := by
  induction pattern generalizing value with
  | nil => rfl
  | cons c pattern ih =>
      obtain ⟨⟨hstar, hquestion⟩, hrest⟩ := List.forall_mem_cons.mp h
      have htail : pattern ≠ ['*', '*'] := by
        rintro rfl
        exact (hrest '*' List.mem_cons_self).1 rfl
      rw [pathDenotes_plain hstar hquestion fun _ => htail]
      simp [ih hrest]

theorem pathDenotes_cons {c : Char} {pattern value : List Char} (hslash : '/' ≠ c)
    (hdouble : c = '*' → ∀ rest, pattern ≠ '*' :: rest) :
    PathDenotes (c :: pattern) value ↔
      ∃ piece rest, value = piece ++ rest ∧ '/' ∉ piece ∧ Stands c piece ∧
        PathDenotes pattern rest := by
  rcases eq_or_ne c '*' with rfl | hstar
  · rw [pathDenotes_star (hdouble rfl)]
    simp [Stands]
  · rcases eq_or_ne c '?' with rfl | hquestion
    · rw [PathDenotes]
      simp only [Stands]
      constructor
      · rintro ⟨d, rest, rfl, hd, hdenotes⟩
        exact ⟨[d], rest, rfl, by simpa using hd.symm, ⟨d, rfl⟩, hdenotes⟩
      · rintro ⟨_, rest, rfl, hout, ⟨d, rfl⟩, hdenotes⟩
        exact ⟨d, rest, rfl, by simpa [eq_comm] using hout, hdenotes⟩
    · rw [pathDenotes_plain hstar hquestion fun heq => absurd heq.symm hslash]
      simp only [Stands, if_neg hstar, if_neg hquestion]
      constructor
      · rintro ⟨rest, rfl, hdenotes⟩
        exact ⟨[c], rest, rfl, by simpa using hslash, rfl, hdenotes⟩
      · rintro ⟨_, rest, rfl, -, rfl, hdenotes⟩
        exact ⟨rest, rfl, hdenotes⟩

theorem pathDenotes_append {level pattern value : List Char} (hslash : '/' ∉ level)
    (hdouble : ¬['*', '*'] <:+: level) (hnext : ∀ rest, pattern ≠ '*' :: rest) :
    PathDenotes (level ++ pattern) value ↔
      ∃ segment rest, value = segment ++ rest ∧ '/' ∉ segment ∧ ToolDenotes level segment ∧
        PathDenotes pattern rest := by
  induction level generalizing value with
  | nil => simp [toolDenotes_nil]
  | cons c level ih =>
      obtain ⟨hc, hlevel⟩ := List.ne_and_not_mem_of_not_mem_cons hslash
      have hrest (value : List Char) := @ih value hlevel fun hmem =>
        hdouble (hmem.trans (List.suffix_cons c level).isInfix)
      have hdouble' : c = '*' → ∀ rest, level ++ pattern ≠ '*' :: rest := by
        rintro rfl rest heq
        rcases level with _ | ⟨d, level⟩
        · exact hnext rest heq
        · obtain ⟨rfl, -⟩ := List.cons_eq_cons.mp heq
          exact hdouble ⟨[], level, rfl⟩
      rw [List.cons_append, pathDenotes_cons hc hdouble']
      simp only [toolDenotes_cons, hrest]
      constructor
      · rintro ⟨piece, _, rfl, hout, hpiece, segment, rest, rfl, hsegment, hdenotes, hpattern⟩
        exact ⟨piece ++ segment, rest, (List.append_assoc ..).symm, by simp [hout, hsegment],
          ⟨piece, segment, rfl, hpiece, hdenotes⟩, hpattern⟩
      · rintro ⟨_, rest, rfl, hsegment, ⟨piece, segment, rfl, hpiece, hdenotes⟩, hpattern⟩
        rw [List.mem_append, not_or] at hsegment
        exact ⟨piece, segment ++ rest, List.append_assoc .., hsegment.1, hpiece, segment, rest,
          rfl, hsegment.2, hdenotes, hpattern⟩

theorem matchPath_iff {pattern value : String} :
    matchPath pattern value = true ↔
      PathDenotes pattern.toList value.toList ∨
        ∃ line, value.toList = line ++ ['\n'] ∧ PathDenotes pattern.toList line := by
  have hcompile : compile true pattern.toList =
      (pathTokens pattern.toList).map (Token.atom true) := by
    rw [compile, compileLoop_path _ _ (by simp), List.nil_append]
  simp only [matchPath, hcompile, matchAtoms_iff_describes, describes_path]

/-- A path pattern accepts its language, and more only where a newline ends the
value. -/
theorem matchPath_recognises (pattern value : String) :
    (PathDenotes pattern.toList value.toList → matchPath pattern value = true) ∧
      (value.toList.getLast? ≠ some '\n' → matchPath pattern value = true →
        PathDenotes pattern.toList value.toList) := by
  rw [matchPath_iff]
  refine ⟨.inl, ?_⟩
  rintro hlast (h | ⟨line, hline, -⟩)
  · exact h
  · exact absurd (by simp [hline]) hlast

theorem matchPath_recognises_prod :
    matchPath "/prod/**" "/prod" = true ∧ PathDenotes "/*".toList "/a".toList := by
  refine ⟨(matchPath_recognises "/prod/**" "/prod").1 ?_,
    (matchPath_recognises "/*" "/a").2 (by decide) (by decide)⟩
  exact ⟨_, rfl, _, rfl, _, rfl, _, rfl, _, rfl, .inl rfl⟩

end McpGatekeeper.GlobLanguage
