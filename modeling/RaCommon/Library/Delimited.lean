import Mathlib.Data.List.Basic
import Mathlib.Tactic.Common

set_option relaxedAutoImplicit false
set_option autoImplicit false

/-!
# Lines and delimiter lines

A text of lines that end with two characters, the sections that some of the lines delimit, as in a
multipart message, and the fields that a separator outside quotes makes of a line.

## Main definitions

* `Delimited.lines` — the lines of a text.
* `Delimited.sections` — what is before the first delimiter line, and the sections after it.
* `Delimited.epilogue` — what is after the closing delimiter line.
* `Delimited.fields` — the fields of a line.

## Main results

* `Delimited.lines_append_end` — the lines of a text that is made of lines.
* `Delimited.exists_lines_append` — a text behind another that does not end its last line.
* `Delimited.intercalate_lines`, `Delimited.length_intercalate` — joined lines, and their length.
* `Delimited.sections_append` — lines that do not delimit.
* `Delimited.exists_sections_append` — how many sections some lines make.
* `Delimited.fields_quoted` — a line with a quoted text.
-/

namespace Delimited

variable {α : Type}

/-! ## Joined lines -/

/-- Joining lines of which the first one goes on in front. -/
lemma intercalate_modifyHead (sep : List α) (c : α) {ls : List (List α)} (h : ls ≠ []) :
    sep.intercalate (ls.modifyHead (c :: ·)) = c :: sep.intercalate ls := by
  obtain ⟨l, ls, rfl⟩ := List.exists_cons_of_ne_nil h
  cases ls with
  | nil => simp
  | cons l' ls => simp [List.intercalate_cons_of_ne_nil]

/-- What is joined is in the result. -/
lemma infix_intercalate {sep l : List α} {ls : List (List α)} (h : l ∈ ls) :
    l <:+: sep.intercalate ls := by
  induction ls with
  | nil => cases h
  | cons l' ls ih =>
    by_cases hls : ls = []
    · subst hls
      obtain rfl := List.mem_singleton.mp h
      simp
    · rw [List.intercalate_cons_of_ne_nil hls, List.append_assoc]
      rcases List.mem_cons.mp h with rfl | h
      · exact (List.prefix_append _ _).isInfix
      · exact (ih h).trans ((List.suffix_append sep _).trans (List.suffix_append l' _)).isInfix

/-- **The length of joined lines.** -/
theorem length_intercalate (sep : List α) {ls : List (List α)} (h : ls ≠ []) :
    (sep.intercalate ls).length + sep.length = ls.flatten.length + ls.length * sep.length := by
  induction ls with
  | nil => exact absurd rfl h
  | cons l ls ih =>
    by_cases hls : ls = []
    · subst hls
      simp
    · have hrest := ih hls
      rw [List.intercalate_cons_of_ne_nil hls, List.length_append, List.length_append,
        List.flatten_cons, List.length_append, List.length_cons, Nat.add_one_mul]
      omega

/-! ## Lines -/

section Lines

variable [DecidableEq α]

/-- The lines of a text, where `a` and `b` together end a line. -/
def lines (a b : α) : List α → List (List α)
  | [] => [[]]
  | [c] => [[c]]
  | c :: d :: s =>
    if c = a ∧ d = b then [] :: lines a b s
    else (lines a b (d :: s)).modifyHead (c :: ·)

variable {a b : α}

/-- There is a first line. -/
lemma lines_ne_nil (s : List α) : lines a b s ≠ [] := by
  fun_induction lines a b s with
  | case1 => simp
  | case2 => simp
  | case3 => simp
  | case4 c d s hne ih =>
    rw [ne_eq, ← List.length_eq_zero_iff, List.length_modifyHead, List.length_eq_zero_iff]
    exact ih

/-- **A text with the end of a line in it**: the lines before it and the lines after it. -/
theorem lines_append_end (hab : a ≠ b) (s t : List α) :
    lines a b (s ++ a :: b :: t) = lines a b s ++ lines a b t := by
  fun_induction lines a b s with
  | case1 => simp [lines]
  | case2 c =>
    have hne : ¬(c = a ∧ a = b) := fun h => hab h.2
    simp [lines, hne]
  | case3 c d s hend ih =>
    rw [List.cons_append, List.cons_append, lines, if_pos hend, ih, List.cons_append]
  | case4 c d s hne ih =>
    rw [List.cons_append] at ih
    rw [List.cons_append, List.cons_append, lines, if_neg hne, ih]
    obtain ⟨l, ls, hls⟩ := List.exists_cons_of_ne_nil (lines_ne_nil (a := a) (b := b) (d :: s))
    simp [hls]

/-- **A text behind another one** that does not end its last line: the last line goes on. -/
theorem exists_lines_append (s : List α) : ∃ ls l, lines a b s = ls ++ [l] ∧
    ∀ t : List α, t ≠ [] → t.head? ≠ some b →
      lines a b (s ++ t) = ls ++ (lines a b t).modifyHead (l ++ ·) := by
  fun_induction lines a b s with
  | case1 => exact ⟨[], [], rfl, fun t _ _ => (congrFun List.modifyHead_id _).symm⟩
  | case2 c =>
    refine ⟨[], [c], rfl, fun t hne hhead => ?_⟩
    obtain ⟨d, t, rfl⟩ := List.exists_cons_of_ne_nil hne
    have hend : ¬(c = a ∧ d = b) := fun h => hhead (congrArg some h.2)
    simp [lines, hend]
  | case3 c d s hend ih =>
    obtain ⟨ls, l, hls, happend⟩ := ih
    refine ⟨[] :: ls, l, by simp [hls], fun t hne hhead => ?_⟩
    simp [lines, hend, happend t hne hhead]
  | case4 c d s hend ih =>
    obtain ⟨ls, l, hls, happend⟩ := ih
    cases ls with
    | nil =>
      refine ⟨[], c :: l, by simp [hls], fun t hne hhead => ?_⟩
      have hrest := happend t hne hhead
      rw [List.cons_append] at hrest
      obtain ⟨l', ls', hls'⟩ := List.exists_cons_of_ne_nil (lines_ne_nil (a := a) (b := b) t)
      simp [lines, hend, hrest, hls']
    | cons l₀ ls =>
      refine ⟨(c :: l₀) :: ls, l, by simp [hls], fun t hne hhead => ?_⟩
      have hrest := happend t hne hhead
      rw [List.cons_append] at hrest
      simp [lines, hend, hrest]

/-- A text behind one that does not even begin the end of a line. -/
lemma lines_append_of_not_mem {s : List α} (h : a ∉ s) (t : List α) :
    lines a b (s ++ t) = (lines a b t).modifyHead (s ++ ·) := by
  induction s with
  | nil => exact (congrFun List.modifyHead_id _).symm
  | cons c s ih =>
    obtain ⟨hc, hs⟩ := not_or.mp (mt List.mem_cons.mpr h)
    have hne : ∀ d, ¬(c = a ∧ d = b) := fun d hd => hc hd.1.symm
    obtain ⟨l, ls, hls⟩ := List.exists_cons_of_ne_nil (lines_ne_nil (a := a) (b := b) t)
    have hrest := ih hs
    rw [hls, List.modifyHead_cons] at hrest ⊢
    cases hst : s ++ t with
    | nil =>
      rw [hst, lines] at hrest
      rw [List.cons_append, hst, lines, List.cons_append, ← (List.cons.inj hrest).1,
        ← (List.cons.inj hrest).2]
    | cons d u =>
      rw [hst] at hrest
      rw [List.cons_append, hst, lines, if_neg (hne d), hrest]
      rfl

/-- **The lines joined again** are the text. -/
theorem intercalate_lines (s : List α) : [a, b].intercalate (lines a b s) = s := by
  fun_induction lines a b s with
  | case1 => simp
  | case2 c => simp
  | case3 c d s hend ih =>
    rw [List.intercalate_cons_of_ne_nil (lines_ne_nil s), ih, hend.1, hend.2]
    rfl
  | case4 c d s hend ih => rw [intercalate_modifyHead _ _ (lines_ne_nil _), ih]

/-- The lines ended one by one are the text with its last line ended. -/
lemma flatMap_lines (s : List α) : (lines a b s).flatMap (· ++ [a, b]) = s ++ [a, b] := by
  fun_induction lines a b s with
  | case1 => rfl
  | case2 c => rfl
  | case3 c d s hend ih => rw [List.flatMap_cons, ih, hend.1, hend.2]; rfl
  | case4 c d s hne ih =>
    obtain ⟨l, ls, hls⟩ := List.exists_cons_of_ne_nil (lines_ne_nil (a := a) (b := b) (d :: s))
    rw [hls] at ih ⊢
    rw [List.modifyHead_cons, List.flatMap_cons, List.cons_append, List.cons_append,
      ← List.flatMap_cons (f := (· ++ [a, b])), ih]
    rfl

/-- A line is in the text. -/
lemma infix_of_mem_lines {s l : List α} (h : l ∈ lines a b s) : l <:+: s := by
  rw [← intercalate_lines (a := a) (b := b) s]
  exact infix_intercalate h

/-- The first line begins as the text does. -/
lemma head?_of_lines {d : α} {s l : List α} {ls : List (List α)}
    (h : lines a b (d :: s) = l :: ls) : l = [] ∨ l.head? = some d := by
  cases s with
  | nil =>
    obtain ⟨rfl, -⟩ := List.cons.inj h
    exact .inr rfl
  | cons e s =>
    rw [lines] at h
    split at h
    · exact .inl (List.cons.inj h).1.symm
    · obtain ⟨l', ls', hls'⟩ := List.exists_cons_of_ne_nil (lines_ne_nil (a := a) (b := b) (e :: s))
      rw [hls'] at h
      obtain ⟨rfl, -⟩ := List.cons.inj h
      exact .inr rfl

/-- **There is no end of a line in a line.** -/
theorem not_infix_of_mem_lines {s l : List α} (h : l ∈ lines a b s) : ¬[a, b] <:+: l := by
  fun_induction lines a b s generalizing l with
  | case1 =>
    obtain rfl := List.mem_singleton.mp h
    simp
  | case2 c =>
    obtain rfl := List.mem_singleton.mp h
    intro hin
    simpa using hin.length_le
  | case3 c d s hend ih =>
    rcases List.mem_cons.mp h with rfl | h
    · simp
    · exact ih h
  | case4 c d s hend ih =>
    obtain ⟨l', ls, hls⟩ := List.exists_cons_of_ne_nil (lines_ne_nil (a := a) (b := b) (d :: s))
    rw [hls] at h ih
    rcases List.mem_cons.mp h with rfl | h
    · rw [List.infix_cons_iff]
      rintro (hbegins | hinfix)
      · obtain ⟨rfl, hnext⟩ := List.cons_prefix_cons.mp hbegins
        obtain ⟨t, rfl⟩ := hnext
        rcases head?_of_lines hls with hnil | hhead
        · cases hnil
        · exact hend ⟨rfl, (Option.some.inj hhead).symm⟩
      · exact ih List.mem_cons_self hinfix
    · exact ih (List.mem_cons_of_mem _ h)

/-- A text without the end of a line in it. -/
lemma lines_eq_singleton {s : List α} (h : ¬[a, b] <:+: s) : lines a b s = [s] := by
  fun_induction lines a b s with
  | case1 => rfl
  | case2 => rfl
  | case3 c d s hend ih =>
    obtain ⟨rfl, rfl⟩ := hend
    exact absurd (List.prefix_append [c, d] s).isInfix h
  | case4 c d s hend ih =>
    rw [ih fun hin => h (hin.trans (List.suffix_cons c (d :: s)).isInfix)]
    rfl

/-- **Lines that are ended one by one.** -/
theorem lines_flatMap_append (hab : a ≠ b) {ls : List (List α)} (h : ∀ l ∈ ls, ¬[a, b] <:+: l)
    (t : List α) : lines a b (ls.flatMap (· ++ [a, b]) ++ t) = ls ++ lines a b t := by
  induction ls with
  | nil => rfl
  | cons l ls ih =>
    have hline : (l :: ls).flatMap (· ++ [a, b]) ++ t =
        l ++ a :: b :: (ls.flatMap (· ++ [a, b]) ++ t) := by simp
    rw [hline, lines_append_end hab, lines_eq_singleton (h l List.mem_cons_self),
      ih fun l' hl' => h l' (List.mem_cons_of_mem _ hl')]
    rfl

end Lines

/-! ## Sections -/

section Sections

variable (Delimits Closes : α → Prop) [DecidablePred Delimits] [DecidablePred Closes]

/-- What is before the first delimiter line, and the sections after each delimiter line, up to the
closing delimiter line. What is after it is passed over; without it there is no result. -/
def sections : List α → Option (List α × List (List α))
  | [] => none
  | line :: rest =>
    if Closes line then some ([], [])
    else (sections rest).map fun r =>
      if Delimits line then ([], r.1 :: r.2) else (line :: r.1, r.2)

variable {Delimits Closes}

/-- **Lines that do not delimit** are in front of the section that they are followed by. -/
theorem sections_append {ls : List α} (h : ∀ line ∈ ls, ¬Delimits line ∧ ¬Closes line)
    (rest : List α) : sections Delimits Closes (ls ++ rest) =
      (sections Delimits Closes rest).map fun r => (ls ++ r.1, r.2) := by
  induction ls with
  | nil => simp
  | cons line ls ih =>
    obtain ⟨hdelimits, hcloses⟩ := h line List.mem_cons_self
    rw [List.cons_append, sections, if_neg hcloses, ih fun l hl => h l (List.mem_cons_of_mem _ hl),
      Option.map_map]
    congr 1
    funext r
    exact if_neg hdelimits

/-- A delimiter line begins a section. -/
lemma sections_delimiter {line : α} (hcloses : ¬Closes line) (hdelimits : Delimits line)
    (rest : List α) : sections Delimits Closes (line :: rest) =
      (sections Delimits Closes rest).map fun r => ([], r.1 :: r.2) := by
  rw [sections, if_neg hcloses]
  congr 1
  funext r
  exact if_pos hdelimits

/-- Nothing is read behind the closing delimiter line. -/
lemma sections_closing {line : α} (h : Closes line) (rest : List α) :
    sections Delimits Closes (line :: rest) = some ([], []) := by
  rw [sections, if_pos h]

/-- **Without a closing delimiter line** there is no result. -/
theorem sections_eq_none {ls : List α} (h : ∀ line ∈ ls, ¬Closes line) :
    sections Delimits Closes ls = none := by
  induction ls with
  | nil => rfl
  | cons line ls ih =>
    rw [sections, if_neg (h line List.mem_cons_self),
      ih fun l hl => h l (List.mem_cons_of_mem _ hl), Option.map_none]

/-- **Before the first delimiter line** there is nothing, or the first line and more. -/
theorem sections_cons_cases {line : α} {rest : List α} {r : List α × List (List α)}
    (h : sections Delimits Closes (line :: rest) = some r) :
    r.1 = [] ∨ ∃ more, r.1 = line :: more := by
  rw [sections] at h
  split at h
  · rw [← Option.some.inj h]
    exact .inl rfl
  · obtain ⟨r', -, rfl⟩ := Option.map_eq_some_iff.mp h
    split
    · exact .inl rfl
    · exact .inr ⟨r'.1, rfl⟩

/-- **How many sections some lines make**: one for each that delimits. Those of what follows are the
last ones. -/
theorem exists_sections_append {xs ys : List α} {r : List α × List (List α)}
    (hcloses : ∀ line ∈ xs, ¬Closes line) (h : sections Delimits Closes (xs ++ ys) = some r) :
    ∃ r', sections Delimits Closes ys = some r' ∧ r'.2 <:+ r.2 ∧
      r.2.length = xs.countP Delimits + r'.2.length := by
  induction xs generalizing r with
  | nil => exact ⟨r, h, List.suffix_refl _, by simp⟩
  | cons line xs ih =>
    obtain ⟨hline, hxs⟩ := List.forall_mem_cons.mp hcloses
    rw [List.cons_append, sections, if_neg hline] at h
    obtain ⟨r₁, hr₁, rfl⟩ := Option.map_eq_some_iff.mp h
    obtain ⟨r', hr', hsuffix, hlength⟩ := ih hxs hr₁
    refine ⟨r', hr', ?_, ?_⟩
    · split
      · exact hsuffix.trans (List.suffix_cons _ _)
      · exact hsuffix
    · by_cases hdelimits : Delimits line
      · rw [if_pos hdelimits, List.length_cons, hlength, List.countP_cons,
          if_pos (decide_eq_true hdelimits)]
        omega
      · rw [if_neg hdelimits, hlength, List.countP_cons, if_neg (by simpa using hdelimits),
          Nat.add_zero]

/-- Before a delimiter line there is nothing. -/
lemma eq_nil_of_sections_cons {line : α} {rest : List α} {r : List α × List (List α)}
    (hline : Delimits line ∨ Closes line) (h : sections Delimits Closes (line :: rest) = some r) :
    r.1 = [] := by
  by_cases hcloses : Closes line
  · rw [sections_closing hcloses] at h
    rw [← Option.some.inj h]
  · rw [sections_delimiter hcloses (hline.resolve_right hcloses)] at h
    obtain ⟨r', -, rfl⟩ := Option.map_eq_some_iff.mp h
    rfl

variable (Closes) in
/-- What is after the closing delimiter line. -/
def epilogue (ls : List α) : List α := (ls.dropWhile fun line => ¬Closes line).drop 1

/-- Lines that do not close are before it. -/
lemma epilogue_append {ls : List α} (h : ∀ line ∈ ls, ¬Closes line) (rest : List α) :
    epilogue Closes (ls ++ rest) = epilogue Closes rest := by
  rw [epilogue, List.dropWhile_append_of_pos fun line hline => decide_eq_true (h line hline)]
  rfl

/-- What is after a closing delimiter line. -/
lemma epilogue_closing {line : α} (h : Closes line) (rest : List α) :
    epilogue Closes (line :: rest) = rest := by
  rw [epilogue, List.dropWhile_cons_of_neg (by simpa using h)]
  rfl

/-- What is after any closing delimiter line is after the first one. -/
lemma length_le_epilogue {line : α} (h : Closes line) (xs ys : List α) :
    ys.length ≤ (epilogue Closes (xs ++ line :: ys)).length := by
  induction xs with
  | nil => exact Nat.le_of_eq (congrArg List.length (epilogue_closing h ys)).symm
  | cons x xs ih =>
    by_cases hx : Closes x
    · rw [List.cons_append, epilogue_closing hx, List.length_append, List.length_cons]
      omega
    · rwa [List.cons_append, ← List.singleton_append,
        epilogue_append (List.forall_mem_singleton.mpr hx)]

end Sections

/-! ## Fields -/

section Fields

variable [DecidableEq α]

/-- The fields of a line, between the separators that are not inside quotes; with `quoted` it begins
inside quotes. -/
def fields (sep quote : α) (quoted : Bool) : List α → List (List α)
  | [] => [[]]
  | c :: s =>
    if c = sep ∧ quoted = false then [] :: fields sep quote false s
    else (fields sep quote (if c = quote then !quoted else quoted) s).modifyHead (c :: ·)

variable {sep quote : α}

/-- Text with neither separators nor quotes. -/
lemma fields_append {s : List α} (hsep : sep ∉ s) (hquote : quote ∉ s) (t : List α) :
    fields sep quote false (s ++ t) = (fields sep quote false t).modifyHead (s ++ ·) := by
  induction s with
  | nil => exact (congrFun List.modifyHead_id _).symm
  | cons c s ih =>
    obtain ⟨hc, hs⟩ := not_or.mp (mt List.mem_cons.mpr hsep)
    obtain ⟨hc', hs'⟩ := not_or.mp (mt List.mem_cons.mpr hquote)
    rw [List.cons_append, fields, if_neg fun h => hc h.1.symm, if_neg (Ne.symm hc'), ih hs hs',
      List.modifyHead_modifyHead]
    rfl

/-- Text inside quotes belongs to one field, up to the closing quote. -/
lemma fields_append_quoted {s : List α} (hquote : quote ∉ s) (t : List α) :
    fields sep quote true (s ++ quote :: t) =
      (fields sep quote false t).modifyHead (s ++ quote :: ·) := by
  induction s with
  | nil => simp [fields]
  | cons c s ih =>
    obtain ⟨hc, hs⟩ := not_or.mp (mt List.mem_cons.mpr hquote)
    have hopen : ¬(c = sep ∧ true = false) := fun h => Bool.noConfusion h.2
    rw [List.cons_append, fields, if_neg hopen, if_neg (Ne.symm hc), ih hs,
      List.modifyHead_modifyHead]
    rfl

/-- **A line with a quoted text** in its second field. -/
theorem fields_quoted (hne : sep ≠ quote) {s t v : List α} (hs : sep ∉ s ∧ quote ∉ s)
    (ht : sep ∉ t ∧ quote ∉ t) (hv : quote ∉ v) (u : List α) :
    fields sep quote false (s ++ sep :: (t ++ quote :: (v ++ quote :: u))) =
      s :: (fields sep quote false u).modifyHead (fun w => t ++ quote :: (v ++ quote :: w)) := by
  have hopen : fields sep quote false (quote :: (v ++ quote :: u)) =
      (fields sep quote false u).modifyHead (fun w => quote :: (v ++ quote :: w)) := by
    rw [fields, if_neg fun h => hne h.1.symm, if_pos rfl, Bool.not_false, fields_append_quoted hv,
      List.modifyHead_modifyHead]
    rfl
  rw [fields_append hs.1 hs.2, fields, if_pos ⟨rfl, rfl⟩, List.modifyHead_cons, List.append_nil,
    fields_append ht.1 ht.2, hopen, List.modifyHead_modifyHead]
  rfl

end Fields

end Delimited
