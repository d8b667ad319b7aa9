import JsxUsage.Json.Reader
import JsxUsage.Proofs.JsonGrammar

/-!
# Reading well-formed documents

The reader accepts every text that the grammar gives a value, with that value.
Each reader is shown to stop right behind the text of the rule it reads, whatever
follows.  A number is the exception: it must not be followed by a digit.

A text is therefore a document of at most one value.
-/

namespace JsxUsage
namespace Json

/-!
# Blanks
-/

theorem isGap_of_gap {gap : List Char} (hgap : Gap gap) {c : Char} (hc : c ∈ gap) :
    isGap c = true := by
  rcases hgap c hc with rfl | rfl | rfl | rfl <;> rfl

theorem skipGaps_append {gap : List Char} (hgap : Gap gap) (cs : List Char) :
    skipGaps (gap ++ cs) = skipGaps cs :=
  List.dropWhile_append_of_pos fun _ hc => isGap_of_gap hgap hc

theorem skipGaps_cons {c : Char} (hc : isGap c = false) (cs : List Char) :
    skipGaps (c :: cs) = c :: cs :=
  List.dropWhile_cons_of_neg (by simp [hc])

theorem skipGaps_behind {gap : List Char} (hgap : Gap gap) {c : Char} (hc : isGap c = false)
    (cs : List Char) : skipGaps (gap ++ c :: cs) = c :: cs := by
  rw [skipGaps_append hgap, skipGaps_cons hc]

theorem skipGaps_skipGaps (cs : List Char) : skipGaps (skipGaps cs) = skipGaps cs := by
  induction cs with
  | nil => rfl
  | cons c cs ih =>
      by_cases hc : isGap c = true
      · simpa [skipGaps, hc] using ih
      · simp [skipGaps, hc]

/-!
# Strings
-/

theorem hexValue?_of_hexDigit {c : Char} {n : Nat} (h : HexDigit c n) :
    Text.hexValue? c = some n := by
  have hn : n < 16 := by
    rcases h with h | h
    · exact (List.getElem?_eq_some_iff.mp h).1
    · exact (List.getElem?_eq_some_iff.mp h).1
  rcases h with h | h
  · interval_cases n <;> cases h <;> rfl
  · interval_cases n <;> cases h <;> rfl

theorem hexUnit?_of_hexDigits {a b c d : Char} {i j k l : Nat} (ha : HexDigit a i)
    (hb : HexDigit b j) (hc : HexDigit c k) (hd : HexDigit d l) :
    hexUnit? a b c d = some (((i * 16 + j) * 16 + k) * 16 + l) := by
  simp [hexUnit?, hexValue?_of_hexDigit ha, hexValue?_of_hexDigit hb, hexValue?_of_hexDigit hc,
    hexValue?_of_hexDigit hd]

theorem toNat_isScalar (c : Char) :
    c.toNat < 0xD800 ∨ (0xDFFF < c.toNat ∧ c.toNat < 0x110000) :=
  c.valid

theorem unitChar?_toNat (c : Char) : unitChar? c.toNat = some c := by
  have hscalar := toNat_isScalar c
  have hplain : ¬ (0xD800 ≤ c.toNat && c.toNat < 0xE000) = true := by
    simp only [Bool.and_eq_true, decide_eq_true_eq]
    omega
  rw [unitChar?, if_neg hplain, Char.ofNat_toNat]

theorem unitChar?_upper {upper : Nat} (hupper : upper < 0x400) :
    unitChar? (0xD800 + upper) = none := by
  have hsurrogate : (0xD800 ≤ 0xD800 + upper && 0xD800 + upper < 0xE000) = true := by
    simp only [Bool.and_eq_true, decide_eq_true_eq]
    omega
  rw [unitChar?, if_pos hsurrogate]

theorem pairChar?_of_eq {c : Char} {upper lower : Nat} (hupper : upper < 0x400)
    (hlower : lower < 0x400) (hc : c.toNat = 0x10000 + upper * 0x400 + lower) :
    pairChar? (0xD800 + upper) (0xDC00 + lower) = some c := by
  have hhalves : (0xD800 ≤ 0xD800 + upper && 0xD800 + upper < 0xDC00 && 0xDC00 ≤ 0xDC00 + lower &&
      0xDC00 + lower < 0xE000) = true := by
    simp only [Bool.and_eq_true, decide_eq_true_eq]
    omega
  have hnumber : 0x10000 + (0xD800 + upper - 0xD800) * 0x400 + (0xDC00 + lower - 0xDC00) =
      c.toNat := by
    omega
  rw [pairChar?, if_pos hhalves, hnumber, Char.ofNat_toNat]

/-- A spelling is read as its character, whatever follows. -/
theorem readString_spelled {cs : List Char} {c : Char} (h : Spelled cs c) (rest : List Char) :
    readString (cs ++ rest) = (readString rest).map fun (s, behind) => (c :: s, behind) := by
  cases h with
  | plain hquote hbackslash hcontrol =>
      have hplain : ¬ (c == '\\' || c.toNat < 32) = true := by
        simp only [Bool.or_eq_true, beq_iff_eq, decide_eq_true_eq]
        exact not_or.mpr ⟨hbackslash, Nat.not_lt.mpr hcontrol⟩
      rw [List.singleton_append, readString, if_neg hplain]
      · exact hquote
      · intro _ _ _ _ _ heq _
        exact hbackslash heq
      · intro _ _ heq _
        exact hbackslash heq
  | short h =>
      cases h <;> simp [readString, shortEscape?]
  | unit h =>
      generalize hn : c.toNat = n at h
      cases h with
      | digits ha hb hc hd =>
          have hunit := hexUnit?_of_hexDigits ha hb hc hd
          rw [← hn] at hunit
          simp [readString, hunit, unitChar?_toNat]
  | pair hupper hlower hbounded hc =>
      rename_i upper lower
      have hscalar := toNat_isScalar c
      have hsmall : upper < 0x400 := by omega
      have hnone := unitChar?_upper hsmall
      have hpair := pairChar?_of_eq hsmall hbounded hc
      generalize 0xD800 + upper = first at hupper hnone hpair
      generalize 0xDC00 + lower = second at hlower hpair
      cases hupper with
      | digits ha hb hc hd =>
          cases hlower with
          | digits ha' hb' hc' hd' =>
              simp [readString, hexUnit?_of_hexDigits ha hb hc hd, hnone,
                hexUnit?_of_hexDigits ha' hb' hc' hd', hpair]

theorem readString_spelling {cs s : List Char} (h : Spelling cs s) (rest : List Char) :
    readString (cs ++ '"' :: rest) = some (s, rest) := by
  induction h with
  | nil => rw [List.nil_append, readString]
  | cons hc hs ih => rw [List.append_assoc, readString_spelled hc, ih, Option.map_some]

/-!
# Numbers
-/

/-- The text does not go on with a digit. -/
def Ends (cs : List Char) : Prop :=
  forall c, cs.head? = some c -> c.isDigit = false

theorem ends_nil : Ends [] := by
  intro c hc
  cases hc

theorem ends_cons {c : Char} (hc : c.isDigit = false) (cs : List Char) : Ends (c :: cs) := by
  intro d hd
  cases hd
  exact hc

theorem ends_append {gap cs : List Char} (hgap : Gap gap) (hcs : Ends cs) : Ends (gap ++ cs) := by
  cases gap with
  | nil => exact hcs
  | cons c gap =>
      apply ends_cons
      rcases hgap c List.mem_cons_self with rfl | rfl | rfl | rfl <;> rfl

theorem takeWhile_isDigit {digits rest : List Char}
    (hdigits : forall c, c ∈ digits -> c.isDigit = true) (hrest : Ends rest) :
    (digits ++ rest).takeWhile Char.isDigit = digits := by
  rw [List.takeWhile_append_of_pos hdigits]
  cases rest with
  | nil => simp
  | cons c rest => simp [hrest c rfl]

theorem head_toDigits (n : Nat) :
    exists c tail, Nat.toDigits 10 n = c :: tail ∧ c.isDigit = true := by
  rcases List.exists_cons_of_ne_nil (Nat.toDigits_ne_nil (n := n) (b := 10)) with ⟨c, tail, hdigits⟩
  have hc : c ∈ Nat.toDigits 10 n := by
    rw [hdigits]
    exact List.mem_cons_self
  exact ⟨c, tail, hdigits, Nat.isDigit_of_mem_toDigits (by decide) (by decide) hc⟩

/-- Only zero is written with a zero in front. -/
theorem eq_zero_of_head_toDigits {n : Nat} (h : (Nat.toDigits 10 n).head? = some '0') : n = 0 := by
  induction n using Nat.strong_induction_on with
  | _ n ih =>
      rcases Nat.lt_or_ge n 10 with hlt | hge
      · rw [Nat.toDigits_of_lt_base hlt] at h
        interval_cases n <;> simp_all [Nat.digitChar]
      · rw [Nat.toDigits_of_base_le (by decide) hge] at h
        rcases head_toDigits (n / 10) with ⟨c, tail, hdigits, -⟩
        have hfront : (Nat.toDigits 10 (n / 10)).head? = some '0' := by
          simpa [hdigits] using h
        have hquotient := ih (n / 10) (by omega) hfront
        omega

theorem readNumber_toDigits (n : Nat) {rest : List Char} (hrest : Ends rest) :
    readNumber (Nat.toDigits 10 n ++ rest) = some (n, rest) := by
  have hdigits : (Nat.toDigits 10 n ++ rest).takeWhile Char.isDigit = Nat.toDigits 10 n := by
    refine takeWhile_isDigit ?_ hrest
    intro c hc
    exact Nat.isDigit_of_mem_toDigits (by decide) (by decide) hc
  simp only [readNumber, hdigits, Nat.ofDigitChars_ten_toDigits, List.drop_left]
  rw [if_neg (by simp [Nat.toDigits_ne_nil]), if_neg]
  intro h
  simp only [Bool.and_eq_true, beq_iff_eq, decide_eq_true_eq] at h
  have hzero := eq_zero_of_head_toDigits h.1
  subst hzero
  simp [Nat.toDigits_zero] at h

/-!
# Values

The text of a value begins with a sign that is no blank and closes nothing, so
the readers of arrays and objects can tell it from an empty list.
-/

theorem isGap_of_isDigit {c : Char} (hc : c.isDigit = true) : isGap c = false := by
  rw [isGap, Bool.eq_false_iff]
  intro hgap
  simp only [Bool.or_eq_true, beq_iff_eq] at hgap
  rcases hgap with ((rfl | rfl) | rfl) | rfl <;> exact absurd hc (by decide)

theorem head_of_value {cs : List Char} {v : Json} (h : Value cs v) :
    exists c tail, cs = c :: tail ∧ isGap c = false ∧ c ≠ ']' := by
  cases h with
  | null => exact ⟨_, _, rfl, rfl, by decide⟩
  | true => exact ⟨_, _, rfl, rfl, by decide⟩
  | false => exact ⟨_, _, rfl, rfl, by decide⟩
  | number n =>
      rcases head_toDigits n with ⟨c, tail, hdigits, hdigit⟩
      refine ⟨c, tail, hdigits, isGap_of_isDigit hdigit, ?_⟩
      intro heq
      subst heq
      exact absurd hdigit (by decide)
  | string h => exact ⟨_, _, rfl, rfl, by decide⟩
  | emptyArray hgap => exact ⟨_, _, rfl, rfl, by decide⟩
  | array h => exact ⟨_, _, rfl, rfl, by decide⟩
  | emptyObject hgap => exact ⟨_, _, rfl, rfl, by decide⟩
  | object h => exact ⟨_, _, rfl, rfl, by decide⟩

theorem readValue_skipGaps (fuel : Nat) (cs : List Char) :
    readValue fuel (skipGaps cs) = readValue fuel cs := by
  cases fuel with
  | zero => simp only [readValue]
  | succ fuel => simp only [readValue, skipGaps_skipGaps]

theorem readItems_skipGaps (fuel : Nat) (cs : List Char) :
    readItems fuel (skipGaps cs) = readItems fuel cs := by
  cases fuel with
  | zero => simp only [readItems]
  | succ fuel => simp only [readItems, readValue_skipGaps]

theorem readMembers_skipGaps (fuel : Nat) (cs : List Char) :
    readMembers fuel (skipGaps cs) = readMembers fuel cs := by
  cases fuel with
  | zero => simp only [readMembers]
  | succ fuel => simp only [readMembers, skipGaps_skipGaps]

theorem readValue_array {fuel : Nat} {cs rest : List Char} (h : skipGaps cs = '[' :: rest)
    (hopen : forall behind, skipGaps rest ≠ ']' :: behind) :
    readValue (fuel + 1) cs =
      (readItems fuel rest).map fun (items, behind) => (.array items, behind) := by
  rw [readValue, h]
  simp only [readItems_skipGaps]

theorem readValue_object {fuel : Nat} {cs rest : List Char} (h : skipGaps cs = '\x7b' :: rest)
    (hopen : forall behind, skipGaps rest ≠ '\x7d' :: behind) :
    readValue (fuel + 1) cs =
      (readMembers fuel rest).map fun (ms, behind) => (.object ms, behind) := by
  rw [readValue, h]
  simp only [readMembers_skipGaps]

theorem readValue_number {fuel : Nat} {c : Char} {cs rest : List Char}
    (h : skipGaps cs = c :: rest) (hc : c.isDigit = true) :
    readValue (fuel + 1) cs =
      (readNumber (c :: rest)).map fun (n, behind) => (.number n, behind) := by
  rw [readValue, h]
  split
  case h_7 => rfl
  all_goals
    rename_i heq
    cases heq
    exact absurd hc (by decide)

theorem skipGaps_value {gap cs : List Char} {v : Json} (hgap : Gap gap) (hv : Value cs v)
    (rest : List Char) : skipGaps (gap ++ (cs ++ rest)) = cs ++ rest := by
  rcases head_of_value hv with ⟨c, tail, rfl, hc, -⟩
  rw [skipGaps_append hgap, List.cons_append, skipGaps_cons hc]

theorem skipGaps_items_ne {cs : List Char} {items : List Json} (h : Items cs items)
    (rest behind : List Char) : skipGaps (cs ++ rest) ≠ ']' :: behind := by
  have hvalue : forall {gap ds : List Char} {v : Json}, Gap gap -> Value ds v ->
      forall tail, skipGaps (gap ++ (ds ++ tail)) ≠ ']' :: behind := by
    intro gap ds v hgap hv tail heq
    rw [skipGaps_value hgap hv] at heq
    rcases head_of_value hv with ⟨c, _, rfl, -, hc⟩
    exact hc (List.cons.inj heq).1
  cases h with
  | last hbefore hv hbehind => simpa using hvalue hbefore hv _
  | more hbefore hv hbehind hvs => simpa using hvalue hbefore hv _

theorem skipGaps_members_ne {cs : List Char} {members : List (String × Json)}
    (h : Members cs members) (rest behind : List Char) :
    skipGaps (cs ++ rest) ≠ '\x7d' :: behind := by
  have hmember : forall {gap ds : List Char} {m : String × Json}, Gap gap -> Member ds m ->
      forall tail, skipGaps (gap ++ (ds ++ tail)) ≠ '\x7d' :: behind := by
    intro gap ds m hgap hm tail heq
    cases hm with
    | pair hk hbefore hbehind hv =>
        rw [skipGaps_append hgap, List.cons_append, skipGaps_cons rfl] at heq
        exact absurd (List.cons.inj heq).1 (by decide)
  cases h with
  | last hbefore hm hbehind => simpa using hmember hbefore hm _
  | more hbefore hm hbehind hms => simpa using hmember hbefore hm _

/-- What is read behind a member: the end of the object, or a comma and more. -/
def readBehind (fuel : Nat) (m : String × Json) (rest : List Char) :
    Option (List (String × Json) × List Char) :=
  match skipGaps rest with
  | '\x7d' :: behind => some ([m], behind)
  | ',' :: more => (readMembers fuel more).map fun (ms, behind) => (m :: ms, behind)
  | _ => none

-- Every step of the readers takes a sign of the text, so fuel for its length is enough.
mutual

theorem readValue_of_value : forall {cs : List Char} {v : Json}, Value cs v ->
    forall {gap rest : List Char} (fuel : Nat), Gap gap -> Ends rest -> cs.length ≤ fuel ->
      readValue fuel (gap ++ (cs ++ rest)) = some (v, rest)
  | _, _, .null, _, _, fuel + 1, hgap, _, _ => by
      rw [readValue, skipGaps_value hgap .null]
      rfl
  | _, _, .true, _, _, fuel + 1, hgap, _, _ => by
      rw [readValue, skipGaps_value hgap .true]
      rfl
  | _, _, .false, _, _, fuel + 1, hgap, _, _ => by
      rw [readValue, skipGaps_value hgap .false]
      rfl
  | _, _, .number n, _, rest, fuel, hgap, hrest, hfuel => by
      have hskip := skipGaps_value hgap (.number n) rest
      have hnumber := readNumber_toDigits n hrest
      rcases head_toDigits n with ⟨c, tail, hdigits, hc⟩
      rw [hdigits] at hskip hnumber hfuel ⊢
      rw [List.cons_append] at hskip hnumber ⊢
      cases fuel with
      | zero => cases hfuel
      | succ fuel => rw [readValue_number hskip hc, hnumber, Option.map_some]
  | _, _, .string h, _, _, fuel + 1, hgap, _, _ => by
      rw [readValue, skipGaps_value hgap (.string h)]
      simp [readString_spelling h]
  | _, _, .emptyArray hinner, _, rest, fuel + 1, hgap, _, _ => by
      have hclose := skipGaps_behind hinner (c := ']') rfl rest
      rw [readValue, skipGaps_value hgap (.emptyArray hinner)]
      simp [hclose]
  | _, _, .array h, _, rest, fuel + 1, hgap, _, hfuel => by
      have hskip := skipGaps_value hgap (.array h) rest
      rw [List.cons_append, List.append_assoc, List.singleton_append] at hskip ⊢
      have hread := readItems_of_items h rest fuel (by simp at hfuel; omega)
      rw [readValue_array hskip (skipGaps_items_ne h _), hread, Option.map_some]
  | _, _, .emptyObject hinner, _, rest, fuel + 1, hgap, _, _ => by
      have hclose := skipGaps_behind hinner (c := '\x7d') rfl rest
      rw [readValue, skipGaps_value hgap (.emptyObject hinner)]
      simp [hclose]
  | _, _, .object h, _, rest, fuel + 1, hgap, _, hfuel => by
      have hskip := skipGaps_value hgap (.object h) rest
      rw [List.cons_append, List.append_assoc, List.singleton_append] at hskip ⊢
      have hread := readMembers_of_members h rest fuel (by simp at hfuel; omega)
      rw [readValue_object hskip (skipGaps_members_ne h _), hread, Option.map_some]

theorem readItems_of_items : forall {cs : List Char} {items : List Json}, Items cs items ->
    forall (rest : List Char) (fuel : Nat), cs.length < fuel ->
      readItems fuel (cs ++ ']' :: rest) = some (items, rest)
  | _, _, .last hbefore hv hbehind, rest, fuel + 1, hfuel => by
      have hends := ends_append hbehind (ends_cons (c := ']') rfl rest)
      have hread := readValue_of_value hv fuel hbefore hends (by simp at hfuel; omega)
      have hclose := skipGaps_behind hbehind (c := ']') rfl rest
      simp only [List.append_assoc, readItems, hread, hclose]
  | _, _, @Items.more _ _ _ ds _ _ hbefore hv hbehind hvs, rest, fuel + 1, hfuel => by
      have hends := ends_append hbehind (ends_cons (c := ',') rfl (ds ++ ']' :: rest))
      have hread := readValue_of_value hv fuel hbefore hends (by simp at hfuel; omega)
      have hcomma := skipGaps_behind hbehind (c := ',') rfl (ds ++ ']' :: rest)
      have hmore := readItems_of_items hvs rest fuel (by simp at hfuel; omega)
      simp only [List.append_assoc, List.cons_append, readItems, hread, hcomma, hmore,
        Option.map_some]

theorem readMembers_of_member : forall {cs : List Char} {m : String × Json}, Member cs m ->
    forall {gap rest : List Char} (fuel : Nat), Gap gap -> Ends rest -> cs.length ≤ fuel ->
      readMembers (fuel + 1) (gap ++ (cs ++ rest)) = readBehind fuel m rest
  | _, _, @Member.pair ks _ before behind cs _ hk hbefore hbehind hv, _, rest, fuel, hgap, hrest,
      hfuel => by
      have hread := readValue_of_value hv fuel hbehind hrest (by simp at hfuel; omega)
      have hquote := skipGaps_behind hgap (c := '"') rfl
        (ks ++ '"' :: (before ++ ':' :: (behind ++ (cs ++ rest))))
      have hcolon := skipGaps_behind hbefore (c := ':') rfl (behind ++ (cs ++ rest))
      simp only [List.append_assoc, List.cons_append, readMembers, hquote, readString_spelling hk,
        hcolon, hread]
      rfl

theorem readMembers_of_members : forall {cs : List Char} {members : List (String × Json)},
    Members cs members -> forall (rest : List Char) (fuel : Nat), cs.length < fuel ->
      readMembers fuel (cs ++ '\x7d' :: rest) = some (members, rest)
  | _, _, .last hbefore hm hbehind, rest, fuel + 1, hfuel => by
      have hends := ends_append hbehind (ends_cons (c := '\x7d') rfl rest)
      have hread := readMembers_of_member hm fuel hbefore hends (by simp at hfuel; omega)
      have hclose := skipGaps_behind hbehind (c := '\x7d') rfl rest
      simp only [List.append_assoc, hread, readBehind, hclose]
  | _, _, @Members.more _ _ _ ds _ _ hbefore hm hbehind hms, rest, fuel + 1, hfuel => by
      have hends := ends_append hbehind (ends_cons (c := ',') rfl (ds ++ '\x7d' :: rest))
      have hread := readMembers_of_member hm fuel hbefore hends (by simp at hfuel; omega)
      have hcomma := skipGaps_behind hbehind (c := ',') rfl (ds ++ '\x7d' :: rest)
      have hmore := readMembers_of_members hms rest fuel (by simp at hfuel; omega)
      simp only [List.append_assoc, List.cons_append, hread, readBehind, hcomma, hmore,
        Option.map_some]

end

theorem ofText?_of_document {text : String} {v : Json} (h : Document text v) :
    ofText? text = some v := by
  cases h with
  | value hbefore hv hbehind htext =>
      have hends := ends_append hbehind ends_nil
      have hread := readValue_of_value hv (text.toList.length + 1) hbefore hends
        (by simp [htext]; omega)
      have hempty := skipGaps_append hbehind []
      rw [List.append_nil] at hread hempty
      rw [← htext] at hread
      simp only [ofText?, hread, hempty]
      rfl

/-- What the printer writes stands for the value it was given and for no other. -/
theorem document_pretty_iff {v w : Json} : Document v.pretty w <-> w = v := by
  constructor
  · intro h
    have hread := ofText?_of_document h
    rw [ofText?_of_document (document_pretty v)] at hread
    exact (Option.some.inj hread).symm
  · intro heq
    subst heq
    exact document_pretty w

end Json
end JsxUsage
