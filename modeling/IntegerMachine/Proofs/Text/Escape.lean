import IntegerMachine.Proofs.Text.Numeral
import IntegerMachine.Text.Escape

/-!
# Control sequences cut in two

A text printed in parts loses the control sequences of each part.  `withoutEscapes_append_iff`
says when this is what the whole text loses: exactly if no control sequence begins in one part
and ends in the next.
-/

set_option autoImplicit false

namespace IntegerMachine.Text

/-- A character of one range is in no range before or behind it. -/
theorem between_eq_false {low high low' high' c : Char} (hgap : high < low' ∨ high' < low)
    (h : (low ≤ c && c ≤ high) = true) : (low' ≤ c && c ≤ high') = false := by
  simp only [Bool.and_eq_true, Bool.and_eq_false_iff, decide_eq_true_eq, decide_eq_false_iff_not,
    Char.le_def, Char.lt_def, UInt32.le_iff_toNat_le, UInt32.lt_iff_toNat_lt] at hgap h ⊢
  omega

/-- No intermediate character is a parameter. -/
theorem isParameter_of_isIntermediate {c : Char} (h : isIntermediate c = true) :
    isParameter c = false :=
  between_eq_false (.inl (by decide)) h

/-- No final character is a parameter. -/
theorem isParameter_of_isFinal {c : Char} (h : isFinal c = true) : isParameter c = false :=
  between_eq_false (.inr (by decide)) h

/-- No final character is an intermediate one. -/
theorem isIntermediate_of_isFinal {c : Char} (h : isFinal c = true) : isIntermediate c = false :=
  between_eq_false (.inr (by decide)) h

/-- A control sequence: the escape character and the bracket, parameters, intermediate
characters, and a final character. -/
def IsControlSequence (text : List Char) : Prop :=
  ∃ parameters between last, text = '\x1b' :: '[' :: (parameters ++ (between ++ [last])) ∧
    (∀ c ∈ parameters, isParameter c = true) ∧ (∀ c ∈ between, isIntermediate c = true) ∧
    isFinal last = true

/-- What follows an escape character and a bracket is cut behind the control sequence that
they begin. -/
theorem afterEscape?_eq_some_iff {text rest : List Char} :
    afterEscape? text = some rest ↔
      ∃ body, IsControlSequence ('\x1b' :: '[' :: body) ∧ text = body ++ rest := by
  constructor
  · intro h
    unfold afterEscape? at h
    split at h
    · rename_i last tail htail
      split at h
      · rename_i hlast
        obtain rfl := Option.some.inj h
        refine ⟨_, ⟨text.takeWhile isParameter,
          (text.dropWhile isParameter).takeWhile isIntermediate, last, rfl, ?_, ?_, hlast⟩, ?_⟩
        · exact List.all_eq_true.mp List.all_takeWhile
        · exact List.all_eq_true.mp List.all_takeWhile
        · have hparameters := List.takeWhile_append_dropWhile (p := isParameter) (l := text)
          have hbetween := List.takeWhile_append_dropWhile (p := isIntermediate)
            (l := text.dropWhile isParameter)
          rw [htail] at hbetween
          simp only [List.append_assoc, List.singleton_append]
          rw [hbetween, hparameters]
      · exact absurd h (by simp)
    · exact absurd h (by simp)
  · rintro ⟨body, ⟨parameters, between, last, hbody, hparameters, hbetween, hlast⟩, rfl⟩
    obtain rfl : body = parameters ++ (between ++ [last]) := by simpa using hbody
    -- the three ranges are disjoint, so each part is dropped just as far as it goes
    have hdrop : (parameters ++ (between ++ [last]) ++ rest).dropWhile isParameter =
        between ++ last :: rest := by
      rw [List.append_assoc, dropWhile_append_of_head hparameters]
      · simp
      · cases between with
        | nil => simpa using isParameter_of_isFinal hlast
        | cons c between =>
          simpa using isParameter_of_isIntermediate (hbetween c List.mem_cons_self)
    have hdrop' : (between ++ last :: rest).dropWhile isIntermediate = last :: rest :=
      dropWhile_append_of_head hbetween (by simpa using isIntermediate_of_isFinal hlast)
    unfold afterEscape?
    rw [hdrop, hdrop']
    simp only [hlast, if_true]

/-- A control sequence stands at the front of a text. -/
def Opens (text : List Char) : Prop :=
  ∃ sequence rest, IsControlSequence sequence ∧ text = sequence ++ rest

/-- A control sequence begins with an escape character and a bracket. -/
theorem IsControlSequence.exists_body {sequence : List Char} (h : IsControlSequence sequence) :
    ∃ body, sequence = '\x1b' :: '[' :: body := by
  obtain ⟨parameters, between, last, rfl, -⟩ := h
  exact ⟨_, rfl⟩

/-- A control sequence in front of a text is left out. -/
theorem withoutEscapes_sequence {sequence : List Char} (h : IsControlSequence sequence)
    (rest : List Char) : withoutEscapes (sequence ++ rest) = withoutEscapes rest := by
  obtain ⟨body, rfl⟩ := h.exists_body
  have hafter : afterEscape? (body ++ rest) = some rest :=
    afterEscape?_eq_some_iff.mpr ⟨body, h, rfl⟩
  rw [List.cons_append, List.cons_append, withoutEscapes]
  split
  · rename_i rest' hafter'
    obtain rfl := Option.some.inj (hafter.symm.trans hafter')
    rfl
  · rename_i hnone
    exact absurd (hafter.symm.trans hnone) (by simp)

/-- A character that opens no control sequence stays. -/
theorem withoutEscapes_cons {c : Char} {text : List Char} (h : ¬ Opens (c :: text)) :
    withoutEscapes (c :: text) = c :: withoutEscapes text := by
  rw [withoutEscapes.eq_def]
  split
  · rename_i heq
    exact absurd heq (by simp)
  · rename_i rest heq
    obtain ⟨rfl, rfl⟩ := List.cons.inj heq
    split
    · rename_i rest' hafter
      obtain ⟨body, hbody, rfl⟩ := afterEscape?_eq_some_iff.mp hafter
      exact absurd ⟨_, rest', hbody, rfl⟩ h
    · rfl
  · rename_i heq
    obtain ⟨rfl, rfl⟩ := List.cons.inj heq
    rfl

/-- A text is empty, or it begins with a control sequence, or with a character that begins
none. -/
theorem sequence_induction {motive : List Char → Prop} (nil : motive [])
    (sequence : ∀ sequence rest, IsControlSequence sequence → motive rest →
      motive (sequence ++ rest))
    (keep : ∀ c text, ¬ Opens (c :: text) → motive text → motive (c :: text))
    (text : List Char) : motive text := by
  induction hn : text.length using Nat.strongRecOn generalizing text with
  | _ n ih =>
    subst hn
    cases text with
    | nil => exact nil
    | cons c text =>
      by_cases hopens : Opens (c :: text)
      · obtain ⟨front, rest, hfront, heq⟩ := hopens
        rw [heq]
        refine sequence front rest hfront (ih rest.length ?_ rest rfl)
        obtain ⟨body, rfl⟩ := hfront.exists_body
        simp only [heq, List.length_append, List.length_cons]
        omega
      · exact keep c text hopens (ih text.length (by simp) text rfl)

/-- A control sequence begins in one text and ends in the next. -/
def Straddles (before after : List Char) : Prop :=
  ∃ head opening closing tail, before = head ++ opening ∧ after = closing ++ tail ∧
    opening ≠ [] ∧ closing ≠ [] ∧ IsControlSequence (opening ++ closing)

/-- No control sequence begins in nothing. -/
theorem not_straddles_nil (after : List Char) : ¬ Straddles [] after := by
  rintro ⟨head, opening, closing, tail, hbefore, -, hopening, -⟩
  exact hopening (List.append_eq_nil_iff.mp hbefore.symm).2

/-- A control sequence that begins in a text begins in one with more in front. -/
theorem Straddles.append_left {before after : List Char} (h : Straddles before after)
    (front : List Char) : Straddles (front ++ before) after := by
  obtain ⟨head, opening, closing, tail, rfl, rest⟩ := h
  exact ⟨front ++ head, opening, closing, tail, by rw [List.append_assoc], rest⟩

/-- A control sequence at the front of two texts together stands in the first or is cut. -/
theorem opens_append {before after : List Char} (h : Opens (before ++ after))
    (hbefore : before ≠ []) :
    Opens before ∨ ∃ closing tail, after = closing ++ tail ∧ closing ≠ [] ∧
      IsControlSequence (before ++ closing) := by
  obtain ⟨sequence, rest, hsequence, heq⟩ := h
  rcases List.append_eq_append_iff.mp heq with ⟨closing, rfl, rfl⟩ | ⟨tail, rfl, rfl⟩
  · cases closing with
    | nil => exact .inl ⟨before, [], by simpa using hsequence, by simp⟩
    | cons c closing => exact .inr ⟨c :: closing, rest, rfl, by simp, hsequence⟩
  · exact .inl ⟨sequence, tail, hsequence, rfl⟩

/-- Texts that cut no control sequence lose in sum what they lose together. -/
theorem withoutEscapes_append {before after : List Char} (h : ¬ Straddles before after) :
    withoutEscapes (before ++ after) = withoutEscapes before ++ withoutEscapes after := by
  induction before using sequence_induction with
  | nil => rw [List.nil_append, withoutEscapes.eq_def [], List.nil_append]
  | sequence sequence rest hsequence ih =>
    rw [List.append_assoc, withoutEscapes_sequence hsequence, withoutEscapes_sequence hsequence]
    exact ih fun hrest => h (hrest.append_left sequence)
  | keep c text hkeep ih =>
    have hopens : ¬ Opens (c :: (text ++ after)) := by
      intro hopens
      rw [← List.cons_append] at hopens
      rcases opens_append hopens (by simp) with
        hopens | ⟨closing, tail, rfl, hclosing, hsequence⟩
      · exact hkeep hopens
      · exact h ⟨[], c :: text, closing, tail, rfl, rfl, by simp, hclosing, hsequence⟩
    rw [List.cons_append, withoutEscapes_cons hopens, withoutEscapes_cons hkeep, List.cons_append,
      ih fun htext => h (htext.append_left [c])]

/-- No escape character stands in a control sequence but its first. -/
theorem ne_escape_of_mem_body {body : List Char}
    (h : IsControlSequence ('\x1b' :: '[' :: body)) {c : Char} (hc : c ∈ body) : c ≠ '\x1b' := by
  obtain ⟨parameters, between, last, hbody, hparameters, hbetween, hlast⟩ := h
  obtain rfl : body = parameters ++ (between ++ [last]) := by simpa using hbody
  rintro rfl
  rw [List.mem_append, List.mem_append, List.mem_singleton] at hc
  rcases hc with hc | hc | hc
  · exact absurd (hparameters _ hc) (by decide)
  · exact absurd (hbetween _ hc) (by decide)
  · rw [← hc] at hlast
    exact absurd hlast (by decide)

/-- The escape character stands at the front of a control sequence only. -/
theorem IsControlSequence.eq_nil_of_escape {head tail : List Char}
    (h : IsControlSequence (head ++ '\x1b' :: tail)) : head = [] := by
  obtain ⟨body, hbody⟩ := h.exists_body
  rw [hbody] at h
  rcases head with _ | ⟨c, _ | ⟨d, head⟩⟩
  · rfl
  · obtain ⟨-, hbracket⟩ := List.cons.inj hbody
    exact absurd (List.cons.inj hbracket).1 (by decide)
  · obtain ⟨-, -, rfl⟩ : c = '\x1b' ∧ d = '[' ∧ head ++ '\x1b' :: tail = body := by
      simpa using hbody
    exact absurd rfl (ne_escape_of_mem_body h (by simp))

/-- No control sequence is the beginning of another one. -/
theorem IsControlSequence.eq_nil_of_append {sequence more : List Char}
    (h : IsControlSequence sequence) (hmore : IsControlSequence (sequence ++ more)) :
    more = [] := by
  obtain ⟨body, rfl⟩ := h.exists_body
  have hshort : afterEscape? (body ++ more) = some more :=
    afterEscape?_eq_some_iff.mpr ⟨body, h, rfl⟩
  have hlong : afterEscape? (body ++ more) = some [] :=
    afterEscape?_eq_some_iff.mpr ⟨body ++ more, hmore, (List.append_nil _).symm⟩
  exact Option.some.inj (hshort.symm.trans hlong)

/-- A control sequence cut at the end of a text does not begin in a whole one at its front. -/
theorem Straddles.of_sequence {sequence before after : List Char}
    (h : Straddles (sequence ++ before) after) (hsequence : IsControlSequence sequence) :
    Straddles before after := by
  obtain ⟨head, opening, closing, tail, hbefore, rfl, hopening, hclosing, hcut⟩ := h
  rcases List.append_eq_append_iff.mp hbefore with ⟨head', rfl, rfl⟩ | ⟨shared, rfl, rfl⟩
  · exact ⟨head', opening, closing, tail, rfl, rfl, hopening, hclosing, hcut⟩
  · cases shared with
    | nil => exact ⟨[], before, closing, tail, rfl, rfl, hopening, hclosing, hcut⟩
    | cons c shared =>
      -- the sequence that is cut would begin inside the one in front
      obtain ⟨body, hbody⟩ := hcut.exists_body
      obtain ⟨rfl, -⟩ := List.cons.inj hbody
      obtain rfl := hsequence.eq_nil_of_escape
      rw [List.nil_append] at hsequence
      rw [List.append_assoc] at hcut
      exact absurd (List.append_eq_nil_iff.mp (hsequence.eq_nil_of_append hcut)).2 hclosing

/-- Text without the escape character is kept. -/
theorem withoutEscapes_plain {plain : List Char} (h : ∀ c ∈ plain, c ≠ '\x1b')
    (rest : List Char) : withoutEscapes (plain ++ rest) = plain ++ withoutEscapes rest := by
  induction plain with
  | nil => rfl
  | cons c plain ih =>
    have hopens : ¬ Opens (c :: (plain ++ rest)) := by
      rintro ⟨sequence, tail, hsequence, heq⟩
      obtain ⟨body, rfl⟩ := hsequence.exists_body
      exact h c List.mem_cons_self (List.cons.inj heq).1
    rw [List.cons_append, withoutEscapes_cons hopens, List.cons_append,
      ih fun d hd => h d (List.mem_cons_of_mem c hd)]

/-- Two texts that cut a control sequence keep more apart than together. -/
theorem length_withoutEscapes_lt {before after : List Char} (h : Straddles before after) :
    (withoutEscapes (before ++ after)).length <
      (withoutEscapes before).length + (withoutEscapes after).length := by
  induction before using sequence_induction with
  | nil => exact absurd h (not_straddles_nil after)
  | sequence sequence rest hsequence ih =>
    rw [List.append_assoc, withoutEscapes_sequence hsequence, withoutEscapes_sequence hsequence]
    exact ih (h.of_sequence hsequence)
  | keep c text hkeep ih =>
    by_cases hopens : Opens (c :: (text ++ after))
    · rw [← List.cons_append] at hopens
      rcases opens_append hopens (by simp) with
        hopens | ⟨closing, tail, rfl, hclosing, hsequence⟩
      · exact absurd hopens hkeep
      · -- together the whole sequence is lost, apart its first character and its end stay
        have hplain : ∀ d ∈ closing, d ≠ '\x1b' := by
          rintro d hd rfl
          obtain ⟨first, second, rfl⟩ := List.append_of_mem hd
          rw [← List.append_assoc] at hsequence
          exact absurd hsequence.eq_nil_of_escape (by simp)
        rw [← List.append_assoc, withoutEscapes_sequence hsequence, withoutEscapes_cons hkeep,
          withoutEscapes_plain hplain, List.length_cons, List.length_append]
        omega
    · obtain ⟨head, opening, closing, tail, hbefore, rfl, hopening, hclosing, hcut⟩ := h
      -- a sequence cut that begins here would open one in the whole text
      cases head with
      | nil =>
        refine absurd ⟨opening ++ closing, tail, hcut, ?_⟩ hopens
        rw [← List.cons_append, hbefore, List.nil_append, List.append_assoc]
      | cons d head =>
        rw [List.cons_append] at hbefore
        obtain ⟨rfl, rfl⟩ := List.cons.inj hbefore
        have hrest := ih ⟨head, opening, closing, tail, rfl, rfl, hopening, hclosing, hcut⟩
        rw [List.cons_append, withoutEscapes_cons hopens, withoutEscapes_cons hkeep,
          List.length_cons, List.length_cons]
        omega

/-- Two texts lose together what they lose apart exactly if they cut no control sequence. -/
theorem withoutEscapes_append_iff {before after : List Char} :
    withoutEscapes (before ++ after) = withoutEscapes before ++ withoutEscapes after ↔
      ¬ Straddles before after := by
  constructor
  · intro heq hcut
    have hlt := length_withoutEscapes_lt hcut
    rw [heq, List.length_append] at hlt
    exact Nat.lt_irrefl _ hlt
  · exact withoutEscapes_append

/-- Parts of a text between which no control sequence is cut. -/
def Unbroken (parts : List (List Char)) : Prop :=
  ∀ before after, parts = before ++ after → ¬ Straddles before.flatten after.flatten

/-- Taken out of the whole, control sequences leave no more than taken out of its parts. -/
theorem length_withoutEscapes_flatten_le (parts : List (List Char)) :
    (withoutEscapes parts.flatten).length ≤ (parts.map withoutEscapes).flatten.length := by
  induction parts with
  | nil => simp [withoutEscapes]
  | cons part parts ih =>
    rw [List.flatten_cons, List.map_cons, List.flatten_cons, List.length_append]
    by_cases hcut : Straddles part parts.flatten
    · have hlt := length_withoutEscapes_lt hcut
      omega
    · rw [withoutEscapes_append hcut, List.length_append]
      omega

/-- Parts of a text lose in sum what the text loses exactly if no control sequence is cut
between them. -/
theorem flatten_withoutEscapes_iff {parts : List (List Char)} :
    (parts.map withoutEscapes).flatten = withoutEscapes parts.flatten ↔ Unbroken parts := by
  constructor
  · rintro heq before after rfl hcut
    have hlt := length_withoutEscapes_lt hcut
    have hbefore := length_withoutEscapes_flatten_le before
    have hafter := length_withoutEscapes_flatten_le after
    have hlength := congrArg List.length heq
    simp only [List.map_append, List.flatten_append, List.length_append] at hlength
    omega
  · intro h
    induction parts with
    | nil => simp [withoutEscapes]
    | cons part parts ih =>
      have hcut : ¬ Straddles part parts.flatten := by
        have hfirst := h [part] parts rfl
        rwa [List.flatten_singleton] at hfirst
      have hrest : Unbroken parts := by
        rintro before after rfl hcut
        refine h (part :: before) after rfl ?_
        rw [List.flatten_cons]
        exact hcut.append_left part
      rw [List.map_cons, List.flatten_cons, List.flatten_cons, ih hrest,
        withoutEscapes_append hcut]

instance (parts : List (List Char)) : Decidable (Unbroken parts) :=
  decidable_of_iff _ flatten_withoutEscapes_iff

/-- The bracket behind the escape character is cut off, but no control sequence is completed. -/
example : Unbroken [['a', '\x1b'], ['[', '1', '\n']] := by decide +kernel

end IntegerMachine.Text
