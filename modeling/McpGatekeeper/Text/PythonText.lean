import Mathlib.Algebra.GroupWithZero.Nat
import Mathlib.Data.List.Basic

namespace PythonText

/-- `text.partition(sep)` for a separator that occurs; `none` when it does not. -/
def partition (sep : List Char) : List Char → Option (List Char × List Char)
  | [] => if sep = [] then some ([], []) else none
  | c :: rest =>
      if sep.isPrefixOf (c :: rest) then some ([], (c :: rest).drop sep.length)
      else (partition sep rest).map fun parts => (c :: parts.1, parts.2)

theorem append_of_partition {sep text front back : List Char}
    (h : partition sep text = some (front, back)) : text = front ++ sep ++ back := by
  induction text generalizing front with
  | nil =>
      rw [partition] at h
      split at h
      · rename_i hsep
        cases h
        rw [hsep]
        rfl
      · cases h
  | cons c rest ih =>
      rw [partition] at h
      split at h
      · rename_i hsep
        cases h
        obtain ⟨after, hafter⟩ := List.isPrefixOf_iff_prefix.mp hsep
        rw [← hafter, List.nil_append, List.drop_left]
      · obtain ⟨parts, hparts, heq⟩ := Option.map_eq_some_iff.mp h
        cases heq
        rw [ih hparts]
        rfl

theorem partition_of_prefix {sep text : List Char} (h : sep <+: text) :
    partition sep text = some ([], text.drop sep.length) := by
  cases text with
  | nil =>
      obtain rfl := List.prefix_nil.mp h
      rfl
  | cons c rest => rw [partition, if_pos (List.isPrefixOf_iff_prefix.mpr h)]

theorem partition_append {sep front back : List Char}
    (h : ∀ rest, rest ≠ [] → rest <:+ front → ¬sep <+: rest ++ sep ++ back) :
    partition sep (front ++ sep ++ back) = some (front, back) := by
  induction front with
  | nil => rw [List.nil_append, partition_of_prefix (List.prefix_append ..), List.drop_left]
  | cons c front ih =>
      change partition sep (c :: (front ++ sep ++ back)) = _
      have hfirst : ¬sep.isPrefixOf (c :: (front ++ sep ++ back)) = true := by
        rw [List.isPrefixOf_iff_prefix]
        exact h (c :: front) (by simp) List.suffix_rfl
      have hrest := ih fun rest hne hsuffix => h rest hne (hsuffix.trans (List.suffix_cons c front))
      rw [partition, if_neg hfirst, hrest]
      rfl

theorem length_le_of_partition {sep front back before after : List Char}
    (h : partition sep (before ++ sep ++ after) = some (front, back)) :
    front.length ≤ before.length := by
  induction before generalizing front with
  | nil =>
      rw [List.nil_append, partition_of_prefix (List.prefix_append ..)] at h
      cases h
      exact Nat.le_refl _
  | cons c before ih =>
      change partition sep (c :: (before ++ sep ++ after)) = _ at h
      rw [partition] at h
      split at h
      · cases h
        exact Nat.zero_le _
      · obtain ⟨parts, hparts, heq⟩ := Option.map_eq_some_iff.mp h
        cases heq
        exact Nat.succ_le_succ (ih hparts)

/-- `text.split(sep)` for a one-character separator. -/
def split (sep : Char) (text : List Char) : List (List Char) :=
  text.splitOn sep

/-- `text.replace(old, new)` for single characters. -/
def replace (old new : Char) (text : List Char) : List Char :=
  text.map fun c => if c = old then new else c

/-- `text.rstrip(chars)` for a single character. -/
def rstrip (c : Char) (text : List Char) : List Char :=
  (text.reverse.dropWhile (· == c)).reverse

/-- `c.isspace()` -/
def isSpace (c : Char) : Bool :=
  let n := c.toNat
  (9 ≤ n && n ≤ 13) || (28 ≤ n && n ≤ 32) || n == 133 || n == 160 || n == 5760 ||
    (8192 ≤ n && n ≤ 8202) || n == 8232 || n == 8233 || n == 8239 || n == 8287 || n == 12288

/-- `text.strip()` -/
def strip (text : List Char) : List Char :=
  ((text.dropWhile isSpace).reverse.dropWhile isSpace).reverse

/-- `sep.join(texts)`. -/
def join (sep : List Char) : List (List Char) → List Char
  | [] => []
  | [text] => text
  | text :: texts => text ++ sep ++ join sep texts

theorem join_cons_cons (sep text text' : List Char) (texts : List (List Char)) :
    join sep (text :: text' :: texts) = text ++ sep ++ join sep (text' :: texts) := rfl

theorem join_append_cons (sep text text' : List Char) (texts : List (List Char)) :
    join sep ((text ++ sep ++ text') :: texts) = join sep (text :: text' :: texts) := by
  cases texts with
  | nil => rfl
  | cons other texts => simp [join]

theorem join_eq_intercalate (sep : List Char) (texts : List (List Char)) :
    join sep texts = sep.intercalate texts := by
  induction texts with
  | nil => rfl
  | cons text texts ih =>
      cases texts with
      | nil => simp [join]
      | cons other texts => rw [join_cons_cons, ih, List.intercalate_cons_cons]

theorem join_append_singleton {texts : List (List Char)} (sep front back : List Char) :
    join sep (texts ++ [front ++ back]) = join sep (texts ++ [front]) ++ back := by
  induction texts with
  | nil => rfl
  | cons text texts ih =>
      cases texts with
      | nil => simp [join]
      | cons other texts =>
          simp only [List.cons_append, join_cons_cons] at ih ⊢
          rw [ih, ← List.append_assoc]

theorem join_concat_nil (sep : Char) (texts : List (List Char)) :
    join [sep] (texts ++ [[]]) = [] ∨ ∃ front, join [sep] (texts ++ [[]]) = front ++ [sep] := by
  induction texts with
  | nil => exact .inl rfl
  | cons text texts ih =>
      obtain ⟨other, rest, hrest⟩ := List.exists_cons_of_ne_nil (l := texts ++ [[]]) (by simp)
      rw [List.cons_append, hrest, join_cons_cons, ← hrest]
      rcases ih with hempty | ⟨front, hfront⟩
      · exact .inr ⟨text, by rw [hempty, List.append_nil]⟩
      · exact .inr ⟨text ++ [sep] ++ front, by rw [hfront, ← List.append_assoc]⟩

theorem concat_of_join {sep c : Char} {texts : List (List Char)} {last line : List Char}
    (hc : c ≠ sep) (h : join [sep] (texts ++ [last]) = line ++ [c]) :
    ∃ front, last = front ++ [c] ∧ line = join [sep] (texts ++ [front]) := by
  rcases List.eq_nil_or_concat last with rfl | ⟨front, d, rfl⟩
  · rcases join_concat_nil sep texts with hempty | ⟨front, hfront⟩
    · rw [hempty] at h
      simp at h
    · rw [hfront] at h
      exact absurd (List.cons_eq_cons.mp (List.append_inj' h rfl).2).1.symm hc
  · rw [List.concat_eq_append, join_append_singleton] at h
    obtain ⟨hline, hd⟩ := List.append_inj' h rfl
    rw [List.concat_eq_append, hd]
    exact ⟨front, rfl, hline.symm⟩

theorem split_join {sep : Char} {texts : List (List Char)} (hne : texts ≠ [])
    (h : ∀ text ∈ texts, sep ∉ text) : split sep (join [sep] texts) = texts := by
  rw [split, join_eq_intercalate, List.splitOn_intercalate sep h hne]

theorem flatMap_eq_join (sep : Char) (lines : List (List Char)) :
    lines.flatMap (· ++ [sep]) = join [sep] (lines ++ [[]]) := by
  induction lines with
  | nil => rfl
  | cons line lines ih =>
      have hne : lines ++ [[]] ≠ [] := by simp
      obtain ⟨other, rest, hrest⟩ := List.exists_cons_of_ne_nil hne
      rw [List.flatMap_cons, ih, List.cons_append, hrest, join_cons_cons]

theorem split_lines {sep : Char} {lines : List (List Char)} (h : ∀ line ∈ lines, sep ∉ line) :
    split sep (lines.flatMap (· ++ [sep])) = lines ++ [[]] := by
  rw [flatMap_eq_join]
  apply split_join (by simp)
  intro line hline
  rcases List.mem_append.mp hline with hmem | hlast
  · exact h line hmem
  · rw [List.mem_singleton.mp hlast]
    exact List.not_mem_nil

theorem count_lines {sep : Char} {lines : List (List Char)} (h : ∀ line ∈ lines, sep ∉ line) :
    (lines.flatMap (· ++ [sep])).count sep = lines.length := by
  induction lines with
  | nil => rfl
  | cons line lines ih =>
      obtain ⟨hline, hrest⟩ := List.forall_mem_cons.mp h
      rw [List.flatMap_cons, List.count_append, List.count_append, ih hrest,
        List.count_eq_zero.mpr hline, List.count_singleton_self, List.length_cons]
      omega

theorem count_join {sep : Char} {texts : List (List Char)} (hne : texts ≠ []) :
    (join [sep] texts).count sep + 1 = texts.length + (texts.map (List.count sep)).sum := by
  induction texts with
  | nil => exact absurd rfl hne
  | cons text texts ih =>
      cases texts with
      | nil =>
          simp [join]
          omega
      | cons other texts =>
          have hrest := ih (by simp)
          rw [join_cons_cons, List.count_append, List.count_append, List.count_singleton_self,
            List.map_cons, List.sum_cons, List.length_cons]
          omega

theorem replace_of_not_mem {old new : Char} {text : List Char} (h : old ∉ text) :
    replace old new text = text := by
  induction text with
  | nil => rfl
  | cons c text ih =>
      obtain ⟨hc, htext⟩ := List.ne_and_not_mem_of_not_mem_cons h
      change (if c = old then new else c) :: replace old new text = _
      rw [if_neg (Ne.symm hc), ih htext]

theorem replace_append (old new : Char) (text text' : List Char) :
    replace old new (text ++ text') = replace old new text ++ replace old new text' :=
  List.map_append

theorem replace_join {old new : Char} {texts : List (List Char)}
    (h : ∀ text ∈ texts, old ∉ text) :
    replace old new (join [old] texts) = join [new] texts := by
  induction texts with
  | nil => rfl
  | cons text texts ih =>
      obtain ⟨htext, hrest⟩ := List.forall_mem_cons.mp h
      cases texts with
      | nil => exact replace_of_not_mem htext
      | cons other texts =>
          have hsep : replace old new [old] = [new] := by simp [replace]
          rw [join_cons_cons, join_cons_cons, replace_append, replace_append, ih hrest, hsep,
            replace_of_not_mem htext]

def hexDigit (n : Nat) : Char :=
  if n < 10 then Char.ofNat (48 + n) else Char.ofNat (87 + n)

/-- `n` in so many hexadecimal digits. -/
def hexDigits (width n : Nat) : List Char :=
  (List.range width).reverse.map fun i => hexDigit (n / 16 ^ i % 16)

/-- The ranges of control, format, separator and private-use characters from U+007F on. -/
def unprintable : List (Nat × Nat) :=
  [(0x7F, 0xA0), (0xAD, 0xAD), (0x600, 0x605), (0x61C, 0x61C), (0x6DD, 0x6DD), (0x70F, 0x70F),
    (0x890, 0x891), (0x8E2, 0x8E2), (0x1680, 0x1680), (0x180E, 0x180E), (0x2000, 0x200F),
    (0x2028, 0x202F), (0x205F, 0x2064), (0x2066, 0x206F), (0x3000, 0x3000), (0xE000, 0xF8FF),
    (0xFEFF, 0xFEFF), (0xFFF9, 0xFFFB), (0x110BD, 0x110BD), (0x110CD, 0x110CD),
    (0x13430, 0x1343F), (0x1BCA0, 0x1BCA3), (0x1D173, 0x1D17A), (0xE0001, 0xE0001),
    (0xE0020, 0xE007F), (0xF0000, 0xFFFFD), (0x100000, 0x10FFFD)]

/-- `c.isprintable()`; a code point that no character has been assigned to, which is one in
one version of Unicode and not in the next, is taken as printable. -/
def isprintable (c : Char) : Bool :=
  if c.toNat < 127 then 32 ≤ c.toNat
  else !unprintable.any fun range => range.1 ≤ c.toNat && c.toNat ≤ range.2

/-- One character inside a `repr`. -/
def reprChar (quote c : Char) : List Char :=
  if c = quote ∨ c = '\\' then ['\\', c]
  else if c = '\n' then ['\\', 'n']
  else if c = '\r' then ['\\', 'r']
  else if c = '\t' then ['\\', 't']
  else if isprintable c then [c]
  else if c.toNat < 0x100 then '\\' :: 'x' :: hexDigits 2 c.toNat
  else if c.toNat < 0x10000 then '\\' :: 'u' :: hexDigits 4 c.toNat
  else '\\' :: 'U' :: hexDigits 8 c.toNat

/-- `repr(text)`: single quotes unless the text has some and no double quote. -/
def repr (text : List Char) : List Char :=
  let quote := if '\'' ∈ text ∧ '"' ∉ text then '"' else '\''
  quote :: text.flatMap (reprChar quote) ++ [quote]

example : repr ['a', '\'', '\n', Char.ofNat 0xA0, Char.ofNat 0x200B] =
    "\"a'\\n\\xa0\\u200b\"".toList := by decide

end PythonText
