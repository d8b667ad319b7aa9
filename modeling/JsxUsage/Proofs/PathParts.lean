import JsxUsage.Path
import Mathlib.Data.List.DropRight

/-!
# The parts of a path

A path is read piece by piece.  The text of a path from one of its parts on is a
stretch of the text of the path, and its parts are those that are left.  A name
behind an absolute path adds one part.
-/

namespace JsxUsage
namespace Path

/-!
# Pieces
-/

theorem pieces_ne_nil (cs : List Char) : pieces cs ≠ [] :=
  List.splitOn_ne_nil '/' cs

theorem pieces_slash (rest : List Char) : pieces ('/' :: rest) = [] :: pieces rest := by
  rw [pieces, List.splitOn_cons_eq_if_modifyHead, if_pos (BEq.refl '/')]
  rfl

theorem pieces_cons {c : Char} (hc : c ≠ '/') {rest piece : List Char} {others : List (List Char)}
    (h : pieces rest = piece :: others) : pieces (c :: rest) = (c :: piece) :: others := by
  rw [pieces] at h ⊢
  rw [List.splitOn_cons_eq_if_modifyHead, if_neg (by simpa using hc), h]
  rfl

theorem intercalate_pieces (cs : List Char) : ['/'].intercalate (pieces cs) = cs := by
  rw [pieces, List.intercalate_splitOn]

theorem pieces_intercalate {ps : List (List Char)} (hps : forall piece, piece ∈ ps -> '/' ∉ piece)
    (hne : ps ≠ []) : pieces (['/'].intercalate ps) = ps := by
  rw [pieces, List.splitOn_intercalate '/' hps hne]

theorem slash_not_mem_piece {cs piece : List Char} (h : piece ∈ pieces cs) : '/' ∉ piece := by
  induction cs generalizing piece with
  | nil =>
      cases List.mem_singleton.mp h
      exact List.not_mem_nil
  | cons c cs ih =>
      rw [pieces, List.splitOn_cons_eq_if_modifyHead, ← pieces] at h
      split_ifs at h with hslash
      · rcases List.mem_cons.mp h with rfl | hlater
        · exact List.not_mem_nil
        · exact ih hlater
      · have hother : '/' ≠ c := fun heq => hslash (beq_iff_eq.mpr heq.symm)
        cases hpieces : pieces cs with
        | nil => exact absurd hpieces (pieces_ne_nil cs)
        | cons first others =>
            rw [hpieces] at h ih
            rcases List.mem_cons.mp h with rfl | hlater
            · exact List.not_mem_cons_of_ne_of_not_mem hother (ih List.mem_cons_self)
            · exact ih (List.mem_cons_of_mem first hlater)

/-!
# Parts from pieces
-/

/-- The parts of a list of pieces; `first` says that nothing precedes them. -/
def partsOf (first : Bool) : List (List Char) -> List Part
  | [] => []
  | piece :: others => (partOf first piece).toList ++ others.filterMap (partOf false)

theorem partsOf_false (ps : List (List Char)) :
    partsOf false ps = ps.filterMap (partOf false) := by
  cases ps with
  | nil => rfl
  | cons piece others =>
      rw [partsOf, List.filterMap_cons]
      cases partOf false piece <;> rfl

theorem parts_absolute {p : Path} {rest : List Char} (h : p.text.toList = '/' :: rest) :
    p.parts = .root :: (pieces rest).filterMap (partOf false) := by
  simp only [parts, h]

theorem isAbsolute_iff {p : Path} :
    p.isAbsolute = true <-> exists rest, p.text.toList = '/' :: rest := by
  rw [isAbsolute, beq_iff_eq, List.head?_eq_some_iff]

theorem text_ne_of_relative {p : Path} (h : p.isAbsolute = false) (rest : List Char) :
    p.text.toList ≠ '/' :: rest := by
  intro heq
  rw [isAbsolute_iff.mpr ⟨rest, heq⟩] at h
  cases h

theorem parts_relative {p : Path} (h : p.isAbsolute = false) :
    p.parts = partsOf true (pieces p.text.toList) := by
  rw [parts]
  split
  · next rest heq => exact absurd heq (text_ne_of_relative h rest)
  · cases pieces p.text.toList <;> rfl

/-- An absolute path and a relative one differ in their parts by the root in front, and by
what a dot at the start stands for. -/
theorem parts_eq (p : Path) :
    p.parts = (if p.isAbsolute then [.root] else []) ++
      partsOf (!p.isAbsolute) (pieces p.text.toList) := by
  cases habsolute : p.isAbsolute with
  | true =>
      rcases isAbsolute_iff.mp habsolute with ⟨rest, hrest⟩
      rw [parts_absolute hrest, hrest]
      rfl
  | false => exact parts_relative habsolute

theorem partsOf_append {ps : List (List Char)} (hps : ps ≠ []) (first : Bool)
    (qs : List (List Char)) :
    partsOf first (ps ++ qs) = partsOf first ps ++ qs.filterMap (partOf false) := by
  cases ps with
  | nil => exact absurd rfl hps
  | cons piece others =>
      rw [List.cons_append, partsOf, partsOf, List.filterMap_append, List.append_assoc]

theorem here_not_mem (ps : List (List Char)) : Part.here ∉ ps.filterMap (partOf false) := by
  intro hmem
  rcases List.mem_filterMap.mp hmem with ⟨piece, -, hpart⟩
  simp only [partOf, Bool.false_eq_true, if_false] at hpart
  split_ifs at hpart <;> cases hpart

theorem here_not_mem_tail (p : Path) : Part.here ∉ p.parts.tail := by
  rw [parts_eq]
  cases p.isAbsolute with
  | true =>
      simp only [if_true, List.singleton_append, List.tail_cons, Bool.not_true, partsOf_false]
      exact here_not_mem _
  | false =>
      simp only [Bool.false_eq_true, if_false, List.nil_append, Bool.not_false]
      cases pieces p.text.toList with
      | nil => exact List.not_mem_nil
      | cons piece others =>
          rw [partsOf]
          cases partOf true piece with
          | none => exact fun hmem => here_not_mem others (List.mem_of_mem_tail hmem)
          | some part => exact here_not_mem others

theorem filter_here_filterMap (ps : List (List Char)) :
    (ps.filterMap (partOf false)).filter (· != .here) = ps.filterMap (partOf false) := by
  rw [List.filter_eq_self]
  intro part hpart
  rw [bne_iff_ne]
  intro heq
  subst heq
  exact here_not_mem ps hpart

/-- Behind another path, a relative path loses the dot at its start. -/
theorem filterMap_pieces_relative {p : Path} (h : p.isAbsolute = false) :
    (pieces p.text.toList).filterMap (partOf false) = p.parts.filter (· != .here) := by
  rw [parts_relative h]
  cases pieces p.text.toList with
  | nil => rfl
  | cons piece others =>
      rw [← partsOf_false, partsOf, partsOf, List.filter_append, filter_here_filterMap]
      congr 1
      simp only [partOf, Bool.false_eq_true, if_false, if_true]
      split_ifs <;> rfl

theorem parts_ne_nil {p : Path} (h : p.text ≠ "") : p.parts ≠ [] := by
  cases habsolute : p.isAbsolute with
  | true =>
      rcases isAbsolute_iff.mp habsolute with ⟨rest, hrest⟩
      rw [parts_absolute hrest]
      exact List.cons_ne_nil _ _
  | false =>
      rw [parts_relative habsolute]
      cases htext : p.text.toList with
      | nil => exact absurd (String.toList_inj.mp htext) h
      | cons c rest =>
          have hc : c ≠ '/' := by
            intro heq
            subst heq
            exact text_ne_of_relative habsolute rest htext
          rcases List.exists_cons_of_ne_nil (pieces_ne_nil rest) with ⟨piece, others, hpieces⟩
          rw [pieces_cons hc hpieces, partsOf]
          unfold partOf
          split_ifs <;> simp_all

theorem parts_eq_nil_iff {p : Path} : p.parts = [] <-> p.text = "" := by
  constructor
  · intro hparts
    by_contra htext
    exact parts_ne_nil htext hparts
  · intro htext
    simp [parts, htext, pieces, partOf]

/-- Only a dot is a part at the start and none elsewhere. -/
theorem partOf_true_of_not_idle {piece : List Char} (h : isIdle piece = false) :
    partOf true piece = partOf false piece := by
  by_cases hdot : piece = ['.']
  · subst hdot
    cases h
  · simp [partOf, hdot]

theorem parts_joined {ps : List (List Char)} (hps : forall piece, piece ∈ ps -> '/' ∉ piece)
    (hfirst : forall piece, ps.head? = some piece -> isIdle piece = false) :
    (Path.mk (String.ofList (['/'].intercalate ps))).parts = ps.filterMap (partOf false) := by
  cases ps with
  | nil => rfl
  | cons piece others =>
      have hidle := hfirst piece rfl
      have hrelative : (Path.mk (String.ofList (['/'].intercalate (piece :: others)))).isAbsolute =
          false := by
        cases piece with
        | nil => cases hidle
        | cons c piece =>
            have hc : c ≠ '/' := by
              intro heq
              subst heq
              exact hps _ List.mem_cons_self List.mem_cons_self
            simp [isAbsolute, List.intercalate_cons_cons_left, hc]
      rw [parts_relative hrelative, String.toList_ofList, pieces_intercalate hps (by simp), partsOf,
        partOf_true_of_not_idle hidle, ← partsOf, partsOf_false]

/-!
# Dropping parts
-/

theorem filterMap_dropWhile_isIdle (ps : List (List Char)) :
    (ps.dropWhile isIdle).filterMap (partOf false) = ps.filterMap (partOf false) := by
  induction ps with
  | nil => rfl
  | cons piece others ih =>
      by_cases hidle : isIdle piece = true
      · have hnone : partOf false piece = none := by simpa [isIdle] using hidle
        rw [List.dropWhile_cons_of_pos hidle, ih, List.filterMap_cons_none hnone]
      · rw [List.dropWhile_cons_of_neg hidle]

theorem isPrefix_trimIdle (ps : List (List Char)) : trimIdle ps <+: ps :=
  List.rdropWhile_prefix isIdle ps

theorem filterMap_trimIdle (ps : List (List Char)) :
    (trimIdle ps).filterMap (partOf false) = ps.filterMap (partOf false) := by
  rw [trimIdle, List.filterMap_reverse, filterMap_dropWhile_isIdle, List.filterMap_reverse,
    List.reverse_reverse]

theorem isSuffix_dropPieces (n : Nat) (first : Bool) (ps : List (List Char)) :
    dropPieces n first ps <:+ ps := by
  fun_induction dropPieces n first ps with
  | case1 first ps => exact List.dropWhile_suffix isIdle
  | case2 n first => exact List.suffix_rfl
  | case3 n first piece others hnone ih => exact ih.trans (List.suffix_cons piece others)
  | case4 n first piece others part hsome ih => exact ih.trans (List.suffix_cons piece others)

theorem dropPieces_head (n : Nat) (first : Bool) (ps : List (List Char)) {piece : List Char}
    (h : (dropPieces n first ps).head? = some piece) : isIdle piece = false := by
  fun_induction dropPieces n first ps with
  | case1 first ps =>
      have hnot := List.head?_dropWhile_not isIdle ps
      rw [h] at hnot
      simpa using hnot
  | case2 n first => cases h
  | case3 n first piece others hnone ih => exact ih h
  | case4 n first piece others part hsome ih => exact ih h

theorem filterMap_dropPieces_false (n : Nat) (ps : List (List Char)) :
    (dropPieces n false ps).filterMap (partOf false) = (ps.filterMap (partOf false)).drop n := by
  induction ps generalizing n with
  | nil => cases n <;> simp [dropPieces]
  | cons piece others ih =>
      cases n with
      | zero => rw [dropPieces, filterMap_dropWhile_isIdle, List.drop_zero]
      | succ n =>
          rw [dropPieces, List.filterMap_cons]
          cases partOf false piece with
          | none => exact ih (n + 1)
          | some part => exact ih n

theorem filterMap_dropPieces_true (n : Nat) (ps : List (List Char)) :
    (dropPieces (n + 1) true ps).filterMap (partOf false) = (partsOf true ps).drop (n + 1) := by
  cases ps with
  | nil => rfl
  | cons piece others =>
      rw [dropPieces, partsOf]
      cases partOf true piece with
      | none => exact filterMap_dropPieces_false (n + 1) others
      | some part => exact filterMap_dropPieces_false n others

theorem parts_joined_dropPieces (n : Nat) (first : Bool) (cs : List Char) :
    (Path.mk (String.ofList
      (['/'].intercalate (trimIdle (dropPieces n first (pieces cs)))))).parts =
      (dropPieces n first (pieces cs)).filterMap (partOf false) := by
  have htrim := isPrefix_trimIdle (dropPieces n first (pieces cs))
  rw [parts_joined, filterMap_trimIdle]
  · intro piece hpiece
    exact slash_not_mem_piece ((isSuffix_dropPieces n first (pieces cs)).mem (htrim.mem hpiece))
  · intro piece hpiece
    rcases htrim with ⟨tail, htail⟩
    apply dropPieces_head n first (pieces cs)
    rw [← htail, List.head?_append, hpiece, Option.some_or]

theorem filterMap_pieces_joined {ps : List (List Char)}
    (hps : forall piece, piece ∈ ps -> '/' ∉ piece) :
    (pieces (['/'].intercalate ps)).filterMap (partOf false) = ps.filterMap (partOf false) := by
  cases ps with
  | nil => rfl
  | cons piece others => rw [pieces_intercalate hps (List.cons_ne_nil piece others)]

theorem intercalate_append {ps qs : List (List Char)} (hps : ps ≠ []) (hqs : qs ≠ []) :
    ['/'].intercalate (ps ++ qs) = ['/'].intercalate ps ++ '/' :: ['/'].intercalate qs := by
  induction ps with
  | nil => exact absurd rfl hps
  | cons piece others ih =>
      cases others with
      | nil => simp [List.intercalate_cons_of_ne_nil hqs]
      | cons next others =>
          have hlater := ih (List.cons_ne_nil next others)
          rw [List.cons_append, List.cons_append, List.intercalate_cons_cons, ← List.cons_append,
            hlater, List.intercalate_cons_cons]
          simp only [List.append_assoc]

theorem isPrefix_intercalate {ps qs : List (List Char)} (h : ps <+: qs) :
    ['/'].intercalate ps <+: ['/'].intercalate qs := by
  rcases h with ⟨tail, rfl⟩
  by_cases hps : ps = []
  · simp [hps]
  · by_cases htail : tail = []
    · simp [htail]
    · rw [intercalate_append hps htail]
      exact List.prefix_append _ _

theorem isSuffix_intercalate {ps qs : List (List Char)} (h : ps <:+ qs) :
    ['/'].intercalate ps <:+ ['/'].intercalate qs := by
  rcases h with ⟨front, rfl⟩
  by_cases hps : ps = []
  · simp [hps]
  · by_cases hfront : front = []
    · simp [hfront]
    · rw [intercalate_append hfront hps]
      exact (List.suffix_cons _ _).trans (List.suffix_append _ _)

theorem isAbsolute_of_isPrefix {p q : Path} (h : q.text.toList <+: p.text.toList)
    (hp : p.isAbsolute = false) : q.isAbsolute = false := by
  rcases h with ⟨tail, htail⟩
  cases hq : q.text.toList with
  | nil => simp [isAbsolute, hq]
  | cons c cs => simpa [isAbsolute, ← htail, hq] using hp

/-!
# The text from a part on
-/

theorem textFrom_absolute_zero {p : Path} {rest : List Char} (h : p.text.toList = '/' :: rest) :
    (p.textFrom 0).toList = '/' :: ['/'].intercalate (trimIdle (pieces rest)) := by
  simp [textFrom, h]

theorem textFrom_absolute_succ {p : Path} {rest : List Char} (h : p.text.toList = '/' :: rest)
    (n : Nat) : p.textFrom (n + 1) =
      String.ofList (['/'].intercalate (trimIdle (dropPieces n false (pieces rest)))) := by
  simp [textFrom, h]

theorem textFrom_relative_zero {p : Path} {piece : List Char} {others : List (List Char)}
    (h : p.isAbsolute = false) (hpieces : pieces p.text.toList = piece :: others) :
    p.textFrom 0 = String.ofList (['/'].intercalate (piece :: trimIdle others)) := by
  have hslash := text_ne_of_relative h
  simp [textFrom, hpieces]

theorem textFrom_relative_succ {p : Path} (h : p.isAbsolute = false) (n : Nat) :
    p.textFrom (n + 1) = String.ofList
      (['/'].intercalate (trimIdle (dropPieces (n + 1) true (pieces p.text.toList)))) := by
  have hslash := text_ne_of_relative h
  simp [textFrom, hslash]

theorem isInfix_joined_dropPieces (n : Nat) (first : Bool) (cs : List Char) :
    ['/'].intercalate (trimIdle (dropPieces n first (pieces cs))) <:+: cs := by
  have hfront := isPrefix_intercalate (isPrefix_trimIdle (dropPieces n first (pieces cs)))
  have hback := isSuffix_intercalate (isSuffix_dropPieces n first (pieces cs))
  rw [intercalate_pieces] at hback
  exact hfront.isInfix.trans hback.isInfix

theorem isPrefix_joined_trimIdle {cs piece : List Char} {others : List (List Char)}
    (hpieces : pieces cs = piece :: others) : ['/'].intercalate (piece :: trimIdle others) <+: cs := by
  have hfront := isPrefix_intercalate
    (List.prefix_cons_inj piece |>.mpr (isPrefix_trimIdle others))
  rwa [← hpieces, intercalate_pieces] at hfront

theorem parts_textFrom_absolute {p : Path} {rest : List Char} (h : p.text.toList = '/' :: rest)
    (n : Nat) : (Path.mk (p.textFrom n)).parts = p.parts.drop n := by
  rw [parts_absolute h]
  cases n with
  | zero =>
      rw [parts_absolute (p := ⟨p.textFrom 0⟩) (textFrom_absolute_zero h), filterMap_pieces_joined,
        filterMap_trimIdle, List.drop_zero]
      intro piece hpiece
      exact slash_not_mem_piece ((isPrefix_trimIdle (pieces rest)).mem hpiece)
  | succ n =>
      rw [textFrom_absolute_succ h, parts_joined_dropPieces, filterMap_dropPieces_false,
        List.drop_succ_cons]

theorem parts_textFrom_relative {p : Path} (h : p.isAbsolute = false) (n : Nat) :
    (Path.mk (p.textFrom n)).parts = p.parts.drop n := by
  rw [parts_relative h]
  cases n with
  | zero =>
      cases hpieces : pieces p.text.toList with
      | nil => exact absurd hpieces (pieces_ne_nil p.text.toList)
      | cons piece others =>
          have hslash : forall q, q ∈ piece :: trimIdle others -> '/' ∉ q := by
            intro q hq
            have hmem : q ∈ piece :: others :=
              ((List.prefix_cons_inj piece).mpr (isPrefix_trimIdle others)).mem hq
            rw [← hpieces] at hmem
            exact slash_not_mem_piece hmem
          rw [textFrom_relative_zero h hpieces, parts_relative, String.toList_ofList,
            pieces_intercalate hslash (List.cons_ne_nil _ _), partsOf, filterMap_trimIdle,
            ← partsOf, List.drop_zero]
          exact isAbsolute_of_isPrefix (by simpa using isPrefix_joined_trimIdle hpieces) h
  | succ n => rw [textFrom_relative_succ h, parts_joined_dropPieces, filterMap_dropPieces_true]

theorem parts_textFrom (p : Path) (n : Nat) : (Path.mk (p.textFrom n)).parts = p.parts.drop n := by
  cases habsolute : p.isAbsolute with
  | false => exact parts_textFrom_relative habsolute n
  | true =>
      rcases isAbsolute_iff.mp habsolute with ⟨rest, hrest⟩
      exact parts_textFrom_absolute hrest n

theorem isInfix_textFrom (p : Path) (n : Nat) : (p.textFrom n).toList <:+: p.text.toList := by
  cases habsolute : p.isAbsolute with
  | false =>
      cases n with
      | zero =>
          cases hpieces : pieces p.text.toList with
          | nil => exact absurd hpieces (pieces_ne_nil p.text.toList)
          | cons piece others =>
              rw [textFrom_relative_zero habsolute hpieces, String.toList_ofList]
              exact (isPrefix_joined_trimIdle hpieces).isInfix
      | succ n =>
          rw [textFrom_relative_succ habsolute, String.toList_ofList]
          exact isInfix_joined_dropPieces (n + 1) true p.text.toList
  | true =>
      rcases isAbsolute_iff.mp habsolute with ⟨rest, hrest⟩
      cases n with
      | zero =>
          have hfront := isPrefix_intercalate (isPrefix_trimIdle (pieces rest))
          rw [intercalate_pieces] at hfront
          rw [textFrom_absolute_zero hrest, hrest]
          exact ((List.prefix_cons_inj '/').mpr hfront).isInfix
      | succ n =>
          rw [textFrom_absolute_succ hrest, String.toList_ofList, hrest]
          exact (isInfix_joined_dropPieces n false rest).trans (List.suffix_cons '/' rest).isInfix

/-!
# Stripping the start of a path
-/

theorem dropStart_eq_some_iff {ps qs rest : List Part} :
    dropStart ps qs = some rest <-> ps = qs ++ rest := by
  fun_induction dropStart ps qs with
  | case1 ps => simp [eq_comm]
  | case2 q qs => simp
  | case3 p ps q qs heq ih => simp_all
  | case4 p ps q qs hne => simp_all

theorem stripStart?_eq_none_iff {p base : Path} :
    p.stripStart? base = none <-> ¬ base.parts <+: p.parts := by
  unfold stripStart?
  cases hdrop : dropStart p.parts base.parts with
  | none =>
      refine ⟨fun _ => ?_, fun _ => rfl⟩
      intro h
      rcases h with ⟨rest, hrest⟩
      rw [dropStart_eq_some_iff.mpr hrest.symm] at hdrop
      cases hdrop
  | some rest =>
      have hstart : base.parts <+: p.parts := ⟨rest, (dropStart_eq_some_iff.mp hdrop).symm⟩
      simp [hstart]

theorem stripStart?_eq_some {p base shown : Path} (h : p.stripStart? base = some shown) :
    p.parts = base.parts ++ shown.parts ∧ shown.text.toList <:+: p.text.toList := by
  unfold stripStart? at h
  cases hdrop : dropStart p.parts base.parts with
  | none => simp [hdrop] at h
  | some rest =>
      have hparts := dropStart_eq_some_iff.mp hdrop
      rw [hdrop] at h
      cases h
      rw [parts_textFrom, hparts, List.drop_left]
      exact ⟨rfl, isInfix_textFrom p base.parts.length⟩

/-!
# Names behind a path
-/

/-- A name that a directory can give to an entry. -/
structure IsName (name : String) : Prop where
  nonempty : name ≠ ""
  notHere : name ≠ "."
  notUp : name ≠ ".."
  slashFree : '/' ∉ name.toList

instance (name : String) : Decidable (IsName name) :=
  decidable_of_iff (name ≠ "" ∧ name ≠ "." ∧ name ≠ ".." ∧ '/' ∉ name.toList)
    ⟨fun ⟨h1, h2, h3, h4⟩ => ⟨h1, h2, h3, h4⟩, fun h => ⟨h.1, h.2, h.3, h.4⟩⟩

theorem partOf_of_isName {name : String} (h : IsName name) :
    partOf false name.toList = some (.name name) := by
  have hempty : name.toList ≠ [] := fun heq => h.nonempty (String.toList_inj.mp heq)
  have hhere : name.toList ≠ ['.'] := fun heq => h.notHere (String.toList_inj.mp heq)
  have hup : name.toList ≠ ['.', '.'] := fun heq => h.notUp (String.toList_inj.mp heq)
  simp [partOf, hempty, hhere, hup]

theorem pieces_of_isName {name : String} (h : IsName name) : pieces name.toList = [name.toList] := by
  rw [pieces, List.splitOn_eq_singleton h.slashFree]

theorem filterMap_pieces_of_isName {name : String} (h : IsName name) :
    (pieces name.toList).filterMap (partOf false) = [.name name] := by
  simp [pieces_of_isName h, partOf_of_isName h]

theorem isIdle_of_isName {name : String} (h : IsName name) : isIdle name.toList = false := by
  rw [isIdle, partOf_of_isName h]
  rfl

theorem pieces_append (front cs : List Char) :
    pieces (front ++ '/' :: cs) = pieces front ++ pieces cs := by
  simp only [pieces, List.splitOn_append_cons_self]

theorem isAbsolute_of_isName {name : String} (h : IsName name) :
    (Path.mk name).isAbsolute = false := by
  rw [Bool.eq_false_iff]
  intro habsolute
  rcases isAbsolute_iff.mp habsolute with ⟨rest, hrest⟩
  apply h.slashFree
  rw [hrest]
  exact List.mem_cons_self

theorem parts_of_isName {name : String} (h : IsName name) : (Path.mk name).parts = [.name name] := by
  rw [parts_relative (isAbsolute_of_isName h), pieces_of_isName h, partsOf,
    partOf_true_of_not_idle (isIdle_of_isName h), partOf_of_isName h]
  rfl

theorem join_of_text_eq {p : Path} (h : p.text = "") (q : Path) : p.join q = q := by
  simp [join, h]

/-- A relative path is put behind another one with one slash, which that one may bring along. -/
theorem toList_join {p q : Path} (hp : p.text ≠ "") (hq : q.isAbsolute = false) :
    exists front, (p.text.toList = front ∨ p.text.toList = front ++ ['/']) ∧
      (p.join q).text.toList = front ++ '/' :: q.text.toList := by
  rw [join, if_neg (by rw [hq]; exact Bool.false_ne_true)]
  by_cases hlast : p.text.toList.getLast? = some '/'
  · rcases List.getLast?_eq_some_iff.mp hlast with ⟨front, hfront⟩
    refine ⟨front, Or.inr hfront, ?_⟩
    simp [hfront]
  · refine ⟨p.text.toList, Or.inl rfl, ?_⟩
    simp [hlast, hp]

theorem text_join_ne {p q : Path} (hp : p.text ≠ "") (hq : q.isAbsolute = false) :
    (p.join q).text ≠ "" := by
  rcases toList_join hp hq with ⟨front, _, htext⟩
  intro hempty
  rw [hempty] at htext
  simp at htext

theorem isAbsolute_join {p q : Path} (hp : p.text ≠ "") (hq : q.isAbsolute = false) :
    (p.join q).isAbsolute = p.isAbsolute := by
  rcases toList_join hp hq with ⟨front, hfront, htext⟩
  have hne : p.text.toList ≠ [] := fun hnil => hp (String.toList_inj.mp hnil)
  rw [isAbsolute, isAbsolute, htext]
  rcases hfront with hfront | hfront
  · rw [hfront]
    cases front with
    | nil => exact absurd hfront hne
    | cons c front => rfl
  · rw [hfront]
    cases front with
    | nil => rfl
    | cons c front => rfl

/-- The pieces of a path stay in front, less the empty one behind a slash at its end. -/
theorem pieces_join {p q : Path} (hp : p.text ≠ "") (hq : q.isAbsolute = false) :
    exists front, front ≠ [] ∧
      (pieces p.text.toList = front ∨ pieces p.text.toList = front ++ [[]]) ∧
      pieces (p.join q).text.toList = front ++ pieces q.text.toList := by
  rcases toList_join hp hq with ⟨front, hfront, htext⟩
  refine ⟨pieces front, pieces_ne_nil front, ?_, by rw [htext, pieces_append]⟩
  rcases hfront with hfront | hfront
  · exact Or.inl (by rw [hfront])
  · exact Or.inr (by rw [hfront, pieces_append]; rfl)

/-- A slash at the end adds no part. -/
theorem partsOf_front {ps front : List (List Char)} (hne : front ≠ [])
    (h : ps = front ∨ ps = front ++ [[]]) (first : Bool) : partsOf first ps = partsOf first front := by
  rcases h with rfl | rfl
  · rfl
  · rw [partsOf_append hne]
    simp [partOf]

theorem parts_join_relative {p q : Path} (hp : p.text ≠ "") (hq : q.isAbsolute = false) :
    (p.join q).parts = p.parts ++ q.parts.filter (· != .here) := by
  rcases pieces_join hp hq with ⟨front, hne, hfront, hpieces⟩
  rw [parts_eq (p.join q), isAbsolute_join hp hq, hpieces, partsOf_append hne,
    filterMap_pieces_relative hq, parts_eq p, partsOf_front hne hfront, List.append_assoc]

theorem parts_join (p : Path) {name : String} (hname : IsName name) :
    (p.join ⟨name⟩).parts = p.parts ++ [.name name] := by
  by_cases hp : p.text = ""
  · rw [join_of_text_eq hp, parts_eq_nil_iff.mpr hp, parts_of_isName hname]
    rfl
  · rw [parts_join_relative hp (isAbsolute_of_isName hname), parts_of_isName hname]
    rfl

end Path
end JsxUsage
