import Mathlib.Data.List.DropRight
import RaCommon.Library.OrderedMap
import RaCommon.Runtime.Text

set_option relaxedAutoImplicit false
set_option autoImplicit false

/-!
# Properties texts (`config.hpp`)

A properties text has a `key=value` or a `key: value` on each line, between blank lines and
comments.

## Main definitions

* `RaCommon.trim`, `RaCommon.parseLine`, `RaCommon.parseProperties` — the reader.
* `RaCommon.Trimmed` — a text that does not begin or end with a blank.
* `RaCommon.PropertyLine`, `RaCommon.Layout` — the lines of a properties text, and the texts that
  some lines can be written as.

## Main results

* `RaCommon.trim_pad` — padding is trimmed away.
* `RaCommon.parseProperties_layout` — every layout of some pairs is read as the map of the pairs.
* `RaCommon.parseProperties_colon_iff` — when a line with a colon is read as it should be.
-/

namespace RaCommon

/-! ## The reader -/

/-- The characters that `Trim` drops. -/
def isBlank (c : UInt8) : Bool := c = 32 || c = 9 || c = 13 || c = 10

/-- `Trim`: the text from the first character that is not blank to the last one. -/
def trim (s : Str) : Str := (s.dropWhile isBlank).rdropWhile isBlank

/-- `line.find(sep)`, if it finds anything, with `line.substr(0, idx)` and
`line.substr(idx + 1)`. -/
def cut (sep : UInt8) (line : Str) : Option (Str × Str) :=
  if sep ∈ line then
    some (line.takeWhile (· ≠ sep), (line.dropWhile (· ≠ sep)).drop 1)
  else none

/-- One round of the loop of `ParseProperties`: the assignment that a line makes, if it makes one.
An equals sign is searched for first, and then a colon. -/
def parseLine (raw : Str) : Option (Str × Str) :=
  let line := trim raw
  if line = [] ∨ line.head? = some 35 ∨ line.head? = some 33 then none
  else ([61, 58] : List UInt8).findSome? fun sep =>
    (cut sep line).map fun p => (trim p.1, trim p.2)

/-- `ParseProperties`. -/
def parseProperties (text : Str) : OrderedMap Str Str :=
  (splitOn text 10).foldl (fun out raw =>
    match parseLine raw with
    | some e => out.set e.1 e.2
    | none => out) .empty

/-- What is read of a text are the assignments of its lines, one after the other. -/
lemma parseProperties_eq (text : Str) :
    parseProperties text = OrderedMap.setAll .empty ((splitOn text 10).filterMap parseLine) := by
  rw [parseProperties, OrderedMap.setAll, List.foldl_filterMap]
  congr 1
  funext out raw
  cases parseLine raw <;> rfl

/-! ## Trimming -/

/-- A text that does not begin or end with a space, a tab or a carriage return. -/
def Trimmed (s : Str) : Prop :=
  ∀ c ∈ ([32, 9, 13] : List UInt8), s.head? ≠ some c ∧ s.getLast? ≠ some c

instance (s : Str) : Decidable (Trimmed s) := List.decidableBAll _ _

/-- Padding: spaces and tabs. -/
def Padding (s : Str) : Prop := ∀ c ∈ s, c = 32 ∨ c = 9

instance (s : Str) : Decidable (Padding s) := List.decidableBAll _ _

/-- Only white space is blank. -/
lemma isBlank_iff {c : UInt8} : isBlank c = true ↔ c = 32 ∨ c = 9 ∨ c = 13 ∨ c = 10 := by
  simp [isBlank, or_assoc]

/-- Padding is blank. -/
lemma Padding.isBlank {s : Str} (h : Padding s) : ∀ c ∈ s, isBlank c = true := by
  intro c hc
  rw [isBlank_iff]
  rcases h c hc with rfl | rfl
  · exact .inl rfl
  · exact .inr (.inl rfl)

/-- A text that ends in something that is not blank keeps its end. -/
lemma rdropWhile_append_cons {s t : Str} {c : UInt8} (hc : isBlank c = false) :
    (s ++ c :: t).rdropWhile isBlank = s ++ c :: t.rdropWhile isBlank := by
  induction t using List.reverseRecOn with
  | nil =>
    rw [List.rdropWhile_nil, List.rdropWhile_concat_neg _ _ _ (by simp [hc])]
  | append_singleton t d ih =>
    have happend : s ++ c :: (t ++ [d]) = (s ++ c :: t) ++ [d] := by simp
    rw [happend, List.rdropWhile_concat, List.rdropWhile_concat]
    split
    · exact ih
    · exact happend.symm

/-- What is left of a text that begins with something that is not blank, behind padding. -/
lemma trim_cons {pad : Str} (hpad : ∀ c ∈ pad, isBlank c = true) {c : UInt8}
    (hc : isBlank c = false) (s : Str) : trim (pad ++ c :: s) = c :: s.rdropWhile isBlank := by
  rw [trim, List.dropWhile_append_of_pos hpad, List.dropWhile_cons, hc]
  exact rdropWhile_append_cons (s := []) hc

/-- A text that is all blank. -/
lemma trim_of_blank {s : Str} (h : ∀ c ∈ s, isBlank c = true) : trim s = [] := by
  rw [trim, List.dropWhile_eq_nil_iff.mpr h, List.rdropWhile_nil]

/-- Blanks at the end do not matter. -/
lemma rdropWhile_append_blank (s : Str) {pad : Str} (hpad : ∀ c ∈ pad, isBlank c = true) :
    (s ++ pad).rdropWhile isBlank = s.rdropWhile isBlank := by
  induction pad using List.reverseRecOn with
  | nil => rw [List.append_nil]
  | append_singleton pad d ih =>
    rw [← List.append_assoc, List.rdropWhile_concat_pos _ _ _ (hpad d (by simp))]
    exact ih fun c hc => hpad c (by simp [hc])

/-- Dropping blanks at the end before trimming does not matter. -/
lemma trim_rdropWhile (s : Str) : trim (s.rdropWhile isBlank) = trim s := by
  have hpad : ∀ c ∈ s.takeWhile isBlank, isBlank c = true := fun c hc => List.mem_takeWhile_imp hc
  have hsplit := List.takeWhile_append_dropWhile (p := isBlank) (l := s)
  cases hdrop : s.dropWhile isBlank with
  | nil =>
    have hblank := List.dropWhile_eq_nil_iff.mp hdrop
    rw [List.rdropWhile_eq_nil_iff.mpr hblank, trim_of_blank hblank]
    rfl
  | cons c t =>
    have hc : isBlank c = false := by
      have hhead := List.head?_dropWhile_not isBlank s
      rw [hdrop] at hhead
      simpa using hhead
    rw [hdrop] at hsplit
    rw [← hsplit, rdropWhile_append_cons hc, trim_cons hpad hc, trim_cons hpad hc,
      List.rdropWhile_idempotent]

/-- A text whose ends are not blank. -/
lemma Trimmed.isBlank {s : Str} (h : Trimmed s) (hline : (10 : UInt8) ∉ s) :
    (∀ c, s.head? = some c → RaCommon.isBlank c = false) ∧
      ∀ c, s.getLast? = some c → RaCommon.isBlank c = false := by
  have hends : ∀ c ∈ s, c ∉ ([32, 9, 13] : List UInt8) → RaCommon.isBlank c = false := by
    intro c hc hne
    have hnewline : c ≠ 10 := fun heq => hline (heq ▸ hc)
    simp only [List.mem_cons, List.not_mem_nil, or_false] at hne
    rw [← Bool.not_eq_true, isBlank_iff]
    tauto
  exact ⟨fun c hc => hends c (List.mem_of_mem_head? hc) fun hmem => (h c hmem).1 hc,
    fun c hc => hends c (List.mem_of_mem_getLast? hc) fun hmem => (h c hmem).2 hc⟩

/-- **Padding is trimmed away.** -/
theorem trim_pad {before after s : Str} (hbefore : ∀ c ∈ before, isBlank c = true)
    (hafter : ∀ c ∈ after, isBlank c = true) (hs : Trimmed s) (hline : (10 : UInt8) ∉ s) :
    trim (before ++ s ++ after) = s := by
  obtain ⟨hhead, hlast⟩ := hs.isBlank hline
  cases s with
  | nil =>
    rw [List.append_nil]
    exact trim_of_blank (List.forall_mem_append.mpr ⟨hbefore, hafter⟩)
  | cons c t =>
    have hkeep : t.rdropWhile isBlank = t := by
      rw [List.rdropWhile_eq_self_iff]
      intro hne
      have hend : (c :: t).getLast? = some (t.getLast hne) := by
        rw [List.getLast?_cons_of_ne_nil hne, List.getLast?_eq_getLast_of_ne_nil hne]
      rw [hlast _ hend]
      exact Bool.false_ne_true
    rw [List.append_assoc, List.cons_append, trim_cons hbefore (hhead c rfl),
      rdropWhile_append_blank t hafter, hkeep]

/-! ## Lines -/

/-- A cut at a separator that comes after none. -/
lemma cut_append {sep : UInt8} {s : Str} (h : sep ∉ s) (t : Str) :
    cut sep (s ++ sep :: t) = some (s, t) := by
  rw [cut, if_pos (by simp), Separated.takeWhile_append_cons h,
    Separated.dropWhile_append_cons h, List.drop_one, List.tail_cons]

/-- No cut without a separator. -/
lemma cut_eq_none {sep : UInt8} {s : Str} (h : sep ∉ s) : cut sep s = none := if_neg h

/-- What a properties key is: it is not empty, does not begin or end with a blank, or begin like a
comment, and fits on a line. -/
structure IsKey (key : Str) : Prop where
  ne_nil : key ≠ []
  trimmed : Trimmed key
  head_ne : key.head? ≠ some 35 ∧ key.head? ≠ some 33
  no_newline : (10 : UInt8) ∉ key

/-- What is trimmed of a line that begins with a key. -/
lemma IsKey.trim_append {key : Str} (h : IsKey key) {pad : Str}
    (hpad : ∀ c ∈ pad, isBlank c = true) {sep : UInt8} (hsep : isBlank sep = false) (s t : Str) :
    trim (pad ++ key ++ s ++ sep :: t) = key ++ s ++ sep :: t.rdropWhile isBlank := by
  obtain ⟨c, k, rfl⟩ := List.exists_cons_of_ne_nil h.ne_nil
  have hc := (h.trimmed.isBlank h.no_newline).1 c rfl
  have hline : pad ++ c :: k ++ s ++ sep :: t = pad ++ c :: (k ++ s ++ sep :: t) := by simp
  rw [hline, trim_cons hpad hc, rdropWhile_append_cons hsep]
  simp

/-- **A line that begins with a key** is not passed over. -/
theorem IsKey.parseLine_eq {key : Str} (h : IsKey key) {raw rest : Str}
    (hraw : trim raw = key ++ rest) : parseLine raw =
      ([61, 58] : List UInt8).findSome? fun sep =>
        (cut sep (key ++ rest)).map fun p => (trim p.1, trim p.2) := by
  obtain ⟨c, k, rfl⟩ := List.exists_cons_of_ne_nil h.ne_nil
  rw [parseLine, hraw, if_neg]
  rintro (hnil | hhash | hmark)
  · cases hnil
  · exact h.head_ne.1 hhash
  · exact h.head_ne.2 hmark

/-- A key and the padding behind it. -/
theorem IsKey.trim_pad {key : Str} (h : IsKey key) {pad : Str}
    (hpad : ∀ c ∈ pad, isBlank c = true) : trim (key ++ pad) = key := by
  have hkey := RaCommon.trim_pad (fun _ hc => absurd hc List.not_mem_nil) hpad h.trimmed
    h.no_newline
  rwa [List.nil_append] at hkey

/-- Padding has no separator. -/
lemma not_mem_pad {pad : Str} (hpad : ∀ c ∈ pad, isBlank c = true) {sep : UInt8}
    (hsep : isBlank sep = false) : sep ∉ pad := by
  intro hmem
  rw [hpad sep hmem] at hsep
  cases hsep

/-- **A line with a key and an equals sign.** -/
theorem parseLine_equals {key before afterKey : Str} (h : IsKey key) (hkey : (61 : UInt8) ∉ key)
    (hbefore : ∀ c ∈ before, isBlank c = true) (hafter : ∀ c ∈ afterKey, isBlank c = true)
    (t : Str) : parseLine (before ++ key ++ afterKey ++ 61 :: t) = some (key, trim t) := by
  have hcut : cut 61 (key ++ (afterKey ++ 61 :: t.rdropWhile isBlank)) =
      some (key ++ afterKey, t.rdropWhile isBlank) := by
    rw [← List.append_assoc]
    refine cut_append (fun hmem => ?_) _
    exact (List.mem_append.mp hmem).elim hkey (not_mem_pad hafter (by decide))
  have hraw := h.trim_append hbefore (show isBlank 61 = false by decide) afterKey t
  rw [List.append_assoc key] at hraw
  rw [h.parseLine_eq hraw]
  simp [hcut, h.trim_pad hafter, trim_rdropWhile]

/-- **A line with a key and a colon**, and no equals sign behind it. -/
theorem parseLine_colon {key before afterKey t : Str} (h : IsKey key) (hkey : (61 : UInt8) ∉ key)
    (hcolon : (58 : UInt8) ∉ key) (hbefore : ∀ c ∈ before, isBlank c = true)
    (hafter : ∀ c ∈ afterKey, isBlank c = true) (ht : (61 : UInt8) ∉ t) :
    parseLine (before ++ key ++ afterKey ++ 58 :: t) = some (key, trim t) := by
  have hcut : cut 58 (key ++ (afterKey ++ 58 :: t.rdropWhile isBlank)) =
      some (key ++ afterKey, t.rdropWhile isBlank) := by
    rw [← List.append_assoc]
    refine cut_append (fun hmem => ?_) _
    exact (List.mem_append.mp hmem).elim hcolon (not_mem_pad hafter (by decide))
  have hnone : cut 61 (key ++ (afterKey ++ 58 :: t.rdropWhile isBlank)) = none := by
    refine cut_eq_none ?_
    simp only [List.mem_append, List.mem_cons, not_or]
    exact ⟨hkey, not_mem_pad hafter (by decide), by decide,
      fun hmem => ht ((List.rdropWhile_prefix isBlank t).subset hmem)⟩
  have hraw := h.trim_append hbefore (show isBlank 58 = false by decide) afterKey t
  rw [List.append_assoc key] at hraw
  rw [h.parseLine_eq hraw]
  simp [hnone, hcut, h.trim_pad hafter, trim_rdropWhile]

/-- **A line with a key, a colon and an equals sign behind it** assigns to a key that contains the
colon. -/
theorem parseLine_colon_equals {key before afterKey t : Str} (h : IsKey key)
    (hkey : (61 : UInt8) ∉ key) (hbefore : ∀ c ∈ before, isBlank c = true)
    (hafter : ∀ c ∈ afterKey, isBlank c = true) (ht : (61 : UInt8) ∈ t) :
    ∃ key' value', parseLine (before ++ key ++ afterKey ++ 58 :: t) = some (key', value') ∧
      (58 : UInt8) ∈ key' := by
  obtain ⟨u, v, rfl, hu⟩ := List.eq_append_cons_of_mem ht
  have hfirst : (61 : UInt8) ∉ key ++ (afterKey ++ 58 :: u) := by
    simp only [List.mem_append, List.mem_cons, not_or]
    exact ⟨hkey, not_mem_pad hafter (by decide), by decide, hu⟩
  have hcut : cut 61 (key ++ (afterKey ++ 58 :: u ++ 61 :: v.rdropWhile isBlank)) =
      some (key ++ (afterKey ++ 58 :: u), v.rdropWhile isBlank) := by
    rw [← List.append_assoc]
    exact cut_append hfirst _
  have hraw : trim (before ++ key ++ afterKey ++ 58 :: (u ++ 61 :: v)) =
      key ++ (afterKey ++ 58 :: u ++ 61 :: v.rdropWhile isBlank) := by
    have hline := h.trim_append hbefore (show isBlank 61 = false by decide) (afterKey ++ 58 :: u) v
    simpa using hline
  have hread : trim (key ++ (afterKey ++ 58 :: u)) =
      key ++ afterKey ++ 58 :: u.rdropWhile isBlank := by
    have hline := h.trim_append (List.forall_mem_nil _) (show isBlank 58 = false by decide)
      afterKey u
    simpa using hline
  rw [h.parseLine_eq hraw]
  refine ⟨key ++ afterKey ++ 58 :: u.rdropWhile isBlank, trim v, ?_, by simp⟩
  simp only [List.findSome?_cons, hcut, Option.map_some, hread, trim_rdropWhile]

/-! ## Layouts -/

/-- A line of a properties text: an entry, with padding around the line, the key and the value; a
blank line; or a comment, with padding before it. -/
inductive PropertyLine where
  | entry (before key afterKey beforeValue value after : Str)
  | blank (pad : Str)
  | comment (pad : Str) (mark : UInt8) (text : Str)

namespace PropertyLine

/-- What is written. -/
def text : PropertyLine → Str
  | entry before key afterKey beforeValue value after =>
    before ++ key ++ afterKey ++ 61 :: (beforeValue ++ value ++ after)
  | blank pad => pad
  | comment pad mark text => pad ++ mark :: text

/-- The pair that a line is written for. -/
def pair? : PropertyLine → Option (Str × Str)
  | entry _ key _ _ value _ => some (key, value)
  | blank _ => none
  | comment _ _ _ => none

/-- The padding is padding, and a comment is one line that begins with one of the two marks. -/
def WellFormed : PropertyLine → Prop
  | entry before _ afterKey beforeValue _ after =>
    Padding before ∧ Padding afterKey ∧ Padding beforeValue ∧ Padding after
  | blank pad => Padding pad
  | comment pad mark text => Padding pad ∧ (mark = 35 ∨ mark = 33) ∧ (10 : UInt8) ∉ text

end PropertyLine

/-- A pair that can be written on a line: its key does not contain an equals sign, and its value
does not begin or end with a blank and fits on a line. -/
structure IsPair (e : Str × Str) : Prop where
  isKey : IsKey e.1
  no_equals : (61 : UInt8) ∉ e.1
  trimmed : Trimmed e.2
  no_newline : (10 : UInt8) ∉ e.2

/-- The texts that some lines can be written as: each line ends with a line feed, or with a carriage
return and a line feed, but the last one can do without. -/
inductive Layout : List PropertyLine → Str → Prop where
  | nil : Layout [] []
  | last (line : PropertyLine) : Layout [line] line.text
  | line (line : PropertyLine) {lines : List PropertyLine} {text cr : Str}
      (hcr : cr = [] ∨ cr = [13]) (h : Layout lines text) :
      Layout (line :: lines) (line.text ++ cr ++ 10 :: text)

/-- There is no line feed in padding. -/
lemma Padding.no_newline {pad : Str} (h : Padding pad) : (10 : UInt8) ∉ pad := by
  intro hmem
  rcases h 10 hmem with heq | heq
  · exact absurd heq (by decide)
  · exact absurd heq (by decide)

/-- The end of a line is blank. -/
lemma isBlank_of_lineEnd {cr : Str} (hcr : cr = [] ∨ cr = [13]) :
    ∀ c ∈ cr, isBlank c = true := by
  rcases hcr with rfl | rfl
  · simp
  · simp [isBlank]

/-- A line is a line. -/
lemma PropertyLine.no_newline {line : PropertyLine} (h : line.WellFormed)
    (hpair : ∀ e, line.pair? = some e → IsPair e) : (10 : UInt8) ∉ line.text := by
  cases line with
  | entry before key afterKey beforeValue value after =>
    obtain ⟨hbefore, hafterKey, hbeforeValue, hafter⟩ := h
    have hline := hpair (key, value) rfl
    simp only [text, List.mem_append, List.mem_cons, not_or]
    exact ⟨⟨⟨hbefore.no_newline, hline.isKey.no_newline⟩, hafterKey.no_newline⟩, by decide,
      ⟨hbeforeValue.no_newline, hline.no_newline⟩, hafter.no_newline⟩
  | blank pad => exact Padding.no_newline h
  | comment pad mark text =>
    obtain ⟨hpad, hmark, htext⟩ := h
    have hne : (10 : UInt8) ≠ mark := by
      rcases hmark with rfl | rfl
      · decide
      · decide
    simp only [PropertyLine.text, List.mem_append, List.mem_cons, not_or]
    exact ⟨hpad.no_newline, hne, htext⟩

/-- **A line is read as the pair that it is written for**, whatever its end. -/
theorem PropertyLine.parseLine_text {line : PropertyLine} (h : line.WellFormed)
    (hpair : ∀ e, line.pair? = some e → IsPair e) {cr : Str} (hcr : cr = [] ∨ cr = [13]) :
    parseLine (line.text ++ cr) = line.pair? := by
  have hend := isBlank_of_lineEnd hcr
  cases line with
  | entry before key afterKey beforeValue value after =>
    obtain ⟨hbefore, hafterKey, hbeforeValue, hafter⟩ := h
    have hline := hpair (key, value) rfl
    have hvalue : trim (beforeValue ++ value ++ (after ++ cr)) = value :=
      trim_pad hbeforeValue.isBlank (List.forall_mem_append.mpr ⟨hafter.isBlank, hend⟩)
        hline.trimmed hline.no_newline
    have hread := parseLine_equals hline.isKey hline.no_equals hbefore.isBlank hafterKey.isBlank
      (beforeValue ++ value ++ (after ++ cr))
    rw [hvalue] at hread
    simpa [text, pair?] using hread
  | blank pad =>
    have hblank : trim (pad ++ cr) = [] :=
      trim_of_blank (List.forall_mem_append.mpr ⟨Padding.isBlank h, hend⟩)
    simp [text, pair?, parseLine, hblank]
  | comment pad mark text =>
    obtain ⟨hpad, hmark, -⟩ := h
    have hmarkBlank : isBlank mark = false := by
      rcases hmark with rfl | rfl
      · decide
      · decide
    have htrim : trim (pad ++ mark :: text ++ cr) = mark :: (text ++ cr).rdropWhile isBlank := by
      rw [List.append_assoc, List.cons_append, trim_cons hpad.isBlank hmarkBlank]
    rw [PropertyLine.text, parseLine, htrim, if_pos]
    · rfl
    · exact .inr (hmark.imp (congrArg some) (congrArg some))

/-- **The lines of a layout** are read one by one. -/
theorem Layout.filterMap_parseLine {lines : List PropertyLine} {text : Str} (h : Layout lines text)
    (hlines : ∀ line ∈ lines, line.WellFormed ∧ ∀ e, line.pair? = some e → IsPair e) :
    (splitOn text 10).filterMap parseLine = lines.filterMap PropertyLine.pair? := by
  induction h with
  | nil => rw [splitOn_nil]; rfl
  | last line =>
    obtain ⟨hwf, hpair⟩ := hlines line (by simp)
    have hread := PropertyLine.parseLine_text hwf hpair (.inl rfl)
    rw [List.append_nil] at hread
    by_cases hne : line.text = []
    · -- An empty last line is not a line of the text.
      have hnone : line.pair? = none := by
        rw [← hread, hne]
        rfl
      rw [hne, splitOn_nil]
      simp [hnone]
    · rw [splitOn_last (PropertyLine.no_newline hwf hpair) hne, List.filterMap_cons,
        List.filterMap_cons, hread]
      rfl
  | @line line _ _ cr hcr _ ih =>
    obtain ⟨hwf, hpair⟩ := hlines line (by simp)
    have hnl : (10 : UInt8) ∉ line.text ++ cr := by
      rw [List.mem_append, not_or]
      refine ⟨PropertyLine.no_newline hwf hpair, ?_⟩
      rcases hcr with rfl | rfl
      · simp
      · simp
    rw [splitOn_cons hnl, List.filterMap_cons, List.filterMap_cons,
      PropertyLine.parseLine_text hwf hpair hcr,
      ih fun line' hmem => hlines line' (List.mem_cons_of_mem _ hmem)]

/-- **Every layout of some pairs is read as the map of the pairs.**

**Proof sketch.** A line is read as the pair that it is written for (`PropertyLine.parseLine_text`),
so the assignments that are made are the pairs, in the order of their lines. The keys are different,
so that the order does not matter. -/
theorem parseProperties_layout {pairs : List (Str × Str)} (hkeys : (pairs.map Prod.fst).Nodup)
    (hpairs : ∀ e ∈ pairs, IsPair e) {lines : List PropertyLine}
    (hlines : ∀ line ∈ lines, line.WellFormed)
    (hperm : (lines.filterMap PropertyLine.pair?).Perm pairs) {text : Str}
    (hlayout : Layout lines text) (e : Str × Str) :
    e ∈ (parseProperties text).entries ↔ e ∈ pairs := by
  have hread := hlayout.filterMap_parseLine fun line hmem => ⟨hlines line hmem, fun e' he' =>
    hpairs e' (hperm.mem_iff.mp (List.mem_filterMap.mpr ⟨line, hmem, he'⟩))⟩
  have hnodup : ((lines.filterMap PropertyLine.pair?).map Prod.fst).Nodup :=
    (hperm.map Prod.fst).nodup_iff.mpr hkeys
  rw [parseProperties_eq, hread, OrderedMap.mem_entries_setAll hnodup, hperm.mem_iff]

/-- A pair on a line that ends with a carriage return and a line feed, behind a comment. -/
theorem parseProperties_layout_comment :
    (str "k", str "a:b=") ∈ (parseProperties (str "#c\n k = a:b=\r\n")).entries ↔
      (str "k", str "a:b=") ∈ [(str "k", str "a:b=")] := by
  have hcomment := Layout.line (.comment [] 35 (str "c")) (.inl rfl)
    (Layout.line (.entry (str " ") (str "k") (str " ") (str " ") (str "a:b=") []) (.inr rfl) .nil)
  have hkey : IsKey (str "k") := ⟨by decide, by decide, by decide, by decide⟩
  refine parseProperties_layout (by decide) ?_ ?_ (.refl _) hcomment _
  · intro e he
    obtain rfl := List.mem_singleton.mp he
    exact ⟨hkey, by decide, by decide, by decide⟩
  · intro line hline
    rcases List.mem_cons.mp hline with rfl | hline
    · exact ⟨by simp [Padding], .inl rfl, by decide⟩
    · obtain rfl := List.mem_singleton.mp hline
      exact ⟨by decide, by decide, by decide, by simp [Padding]⟩

/-! ## Lines with a colon -/

/-- Of the assignments to a key that some lines make, the last one is of a value. -/
def LastSets (key value : Str) (lines : List Str) : Prop :=
  ∃ before after, lines.filterMap parseLine = before ++ (key, value) :: after ∧
    ∀ e ∈ after, e.1 ≠ key

/-- **When a line `key: value` is read as it should be**: the value does not contain an equals
sign, or an earlier line has set the key to the value.

**Proof sketch.** Without an equals sign, the line sets the key to the value, and no later line sets
it. With one, the equals sign is found first, so that the line sets a key that contains the colon
(`parseLine_colon_equals`), and the value of the key is what the earlier lines say. -/
theorem parseProperties_colon_iff {key value : Str} (hkey : IsKey key)
    (hequals : (61 : UInt8) ∉ key) (hcolon : (58 : UInt8) ∉ key) (hvalue : Trimmed value)
    (hnewline : (10 : UInt8) ∉ value)
    {before afterKey beforeValue after : Str} (hbefore : ∀ c ∈ before, isBlank c = true)
    (hafterKey : ∀ c ∈ afterKey, isBlank c = true)
    (hbeforeValue : ∀ c ∈ beforeValue, isBlank c = true) (hafter : ∀ c ∈ after, isBlank c = true)
    {text : Str} {earlier later : List Str}
    (htext : splitOn text 10 =
      earlier ++ (before ++ key ++ afterKey ++ 58 :: (beforeValue ++ value ++ after)) :: later)
    (hlater : ∀ raw ∈ later, ∀ v, parseLine raw ≠ some (key, v)) :
    (parseProperties text).get? key = some value ↔
      (61 : UInt8) ∉ value ∨ LastSets key value earlier := by
  have hlater' : ∀ e ∈ later.filterMap parseLine, e.1 ≠ key := by
    intro e he heq
    obtain ⟨raw, hraw, hread⟩ := List.mem_filterMap.mp he
    exact hlater raw hraw e.2 (by rw [hread, ← heq])
  have hpad : ∀ pad : Str, (∀ c ∈ pad, isBlank c = true) → (61 : UInt8) ∉ pad :=
    fun pad h => not_mem_pad h (by decide)
  rw [parseProperties_eq, htext, List.filterMap_append, List.filterMap_cons]
  by_cases hin : (61 : UInt8) ∈ value
  · obtain ⟨key', value', hread, hmem⟩ := parseLine_colon_equals hkey hequals hbefore hafterKey
      (t := beforeValue ++ value ++ after) (by simp [hin])
    have hne : key' ≠ key := fun heq => hcolon (heq ▸ hmem)
    have hrest : ∀ e ∈ (key', value') :: later.filterMap parseLine, e.1 ≠ key :=
      List.forall_mem_cons.mpr ⟨hne, hlater'⟩
    rw [hread, OrderedMap.setAll_append, OrderedMap.get?_setAll_of_ne _ hrest]
    constructor
    · exact fun hget => .inr (OrderedMap.mem_of_get?_setAll hget)
    · rintro (hnot | ⟨b, a, heq, ha⟩)
      · exact absurd hin hnot
      · rw [heq]
        exact OrderedMap.get?_setAll_of_last _ ha
  · have ht : (61 : UInt8) ∉ beforeValue ++ value ++ after := by
      simp only [List.mem_append, not_or]
      exact ⟨⟨hpad _ hbeforeValue, hin⟩, hpad _ hafter⟩
    rw [parseLine_colon hkey hequals hcolon hbefore hafterKey ht,
      trim_pad hbeforeValue hafter hvalue hnewline]
    exact ⟨fun _ => .inl hin, fun _ => OrderedMap.get?_setAll_of_last _ hlater'⟩

/-- One line without an equals sign. -/
theorem parseProperties_colon_iff_port :
    (parseProperties (str "k: h:1")).get? (str "k") = some (str "h:1") ↔
      (61 : UInt8) ∉ str "h:1" ∨ LastSets (str "k") (str "h:1") [] :=
  parseProperties_colon_iff ⟨by decide, by decide, by decide, by decide⟩ (by decide)
    (by decide) (by decide) (by decide) (List.forall_mem_nil _) (List.forall_mem_nil _)
    (Padding.isBlank (show Padding (str " ") by decide)) (List.forall_mem_nil _)
    (splitOn_last (by decide) (by decide)) (List.forall_mem_nil _)

/-- A URL with an equals sign: the key is not set. -/
theorem parseProperties_colon_url :
    ¬ ∀ key value : Str, IsKey key → (61 : UInt8) ∉ key → (58 : UInt8) ∉ key → Trimmed value →
      (10 : UInt8) ∉ value →
      (parseProperties (key ++ str ": " ++ value)).get? key = some value := by
  intro hall
  have hkey : IsKey (str "url") := ⟨by decide, by decide, by decide, by decide⟩
  have hget := hall (str "url") (str "http://x?a=b") hkey (by decide) (by decide)
    (by decide) (by decide)
  rw [parseProperties_eq, splitOn_last (by decide) (by decide)] at hget
  revert hget
  decide +kernel

end RaCommon
