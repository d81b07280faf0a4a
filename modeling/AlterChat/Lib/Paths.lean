import Mathlib.Data.List.Infix

/-!
# Paths

Texts that name files, with `/` between directories: how a text falls into parts, how one text is
joined to another, and which place a text names when only the text is looked at (no links, no
working directory). A place is anchored at the file system's root or some directories above the
working directory; names follow.

* §1 parts, `join`; §2 places, `Inside`;
* §3 `place_join` -- the place of a joined text; `inside_join_iff` -- when it lies inside the base;
* §4 names; `Apart.place_ne` -- paths that end differently.
-/

namespace Lib.Paths

/-! ## 1. Texts -/

/-- A part of a path: the parent directory, or a name. -/
inductive Part where
  | up
  | name (n : String)
  deriving DecidableEq

/-- What a piece between two separators says: nothing, if it is empty or `.`. -/
def part (piece : List Char) : Option Part :=
  if piece = [] ∨ piece = ['.'] then none
  else if piece = ['.', '.'] then some .up
  else some (.name (String.ofList piece))

def parts (text : String) : List Part := (text.toList.splitOn '/').filterMap part

def isAbsolute (text : String) : Bool := decide (text.toList.head? = some '/')

/-- One path joined to another: an absolute one replaces it. -/
def join (base file : String) : String :=
  if isAbsolute file then file
  else if base = "" ∨ base.toList.getLast? = some '/' then base ++ file
  else base ++ "/" ++ file

example : parts "a//./b/../c/" = [.name "a", .name "b", .up, .name "c"] := by decide

/-! ## 2. Places -/

inductive Anchor where
  | root
  /-- So many directories above the working directory. -/
  | above (k : Nat)
  deriving DecidableEq

/-- The anchor so many directories higher; nothing is above the root. -/
def Anchor.climb : Anchor → Nat → Anchor
  | .root, _ => .root
  | .above k, n => .above (k + n)

structure Location where
  anchor : Anchor
  names : List String
  deriving DecidableEq

/-- One part further. -/
def Location.walk (p : Location) : Part → Location
  | .name n => { p with names := p.names ++ [n] }
  | .up =>
    if p.names = [] then { p with anchor := p.anchor.climb 1 }
    else { p with names := p.names.dropLast }

/-- Where the walk along a text starts. -/
def start (text : String) : Location where
  anchor := if isAbsolute text then .root else .above 0
  names := []

/-- The place that a text names. -/
def place (text : String) : Location := (parts text).foldl Location.walk (start text)

/-- A place that is another or lies below it. -/
def Inside (base p : Location) : Prop := p.anchor = base.anchor ∧ base.names <+: p.names

instance instDecidableInside (base p : Location) : Decidable (Inside base p) :=
  inferInstanceAs (Decidable (_ ∧ _))

example : place "../a/b/../c" = ⟨.above 1, ["a", "c"]⟩ := by decide

example : ¬ Inside (place "a/b") (place (join "a/b" "../x")) := by decide

theorem Inside.refl (p : Location) : Inside p p := ⟨rfl, List.prefix_rfl⟩

theorem Inside.trans {p q r : Location} (h₁ : Inside p q) (h₂ : Inside q r) : Inside p r :=
  ⟨h₂.1.trans h₁.1, h₁.2.trans h₂.2⟩

/-! ## 3. Joined texts -/

theorem isAbsolute_append {base : String} (h : base ≠ "") (file : String) :
    isAbsolute (base ++ file) = isAbsolute base := by
  obtain ⟨c, cs, hcs⟩ := List.exists_cons_of_ne_nil (l := base.toList) (by simpa using h)
  simp only [isAbsolute, String.toList_append, hcs, List.cons_append, List.head?_cons]

/-- **The parts of two texts with a separator between them.** -/
theorem parts_separated (a b : String) : parts (a ++ "/" ++ b) = parts a ++ parts b := by
  have htext : (a ++ "/" ++ b).toList = a.toList ++ '/' :: b.toList := by simp
  unfold parts
  rw [htext, List.splitOn_append_cons_self, List.filterMap_append]

/-- A separator at the end adds nothing. -/
theorem parts_trailing (a : String) : parts (a ++ "/") = parts a := by
  have h := parts_separated a ""
  rwa [String.append_empty, show parts "" = [] from rfl, List.append_nil] at h

/-- **The parts of a joined text.** -/
theorem parts_join {file : String} (hfile : isAbsolute file = false) (base : String) :
    parts (join base file) = parts base ++ parts file := by
  unfold join
  rw [if_neg (by simp [hfile])]
  split
  · next h =>
    rcases h with rfl | h
    · rw [String.empty_append]
      rfl
    · obtain ⟨cs, hcs⟩ := List.getLast?_eq_some_iff.mp h
      have hbase : base = String.ofList cs ++ "/" := by
        rw [← String.toList_inj, hcs]
        simp
      rw [hbase, parts_separated, parts_trailing]
  · exact parts_separated base file

theorem start_join {file : String} (hfile : isAbsolute file = false) (base : String) :
    start (join base file) = start base := by
  have habsolute : isAbsolute (join base file) = isAbsolute base := by
    unfold join
    rw [if_neg (by rw [hfile]; exact Bool.false_ne_true)]
    by_cases hbase : base = ""
    · subst hbase
      rw [if_pos (Or.inl rfl), String.empty_append, hfile]
      rfl
    · split
      · exact isAbsolute_append hbase file
      · rw [String.append_assoc]
        exact isAbsolute_append hbase _
  unfold start
  rw [habsolute]

/-- From a place, a path that climbs so many directories and then follows names. -/
def Location.descend (p : Location) (climbs : Nat) (names : List String) : Location where
  anchor := p.anchor.climb (climbs - p.names.length)
  names := p.names.take (p.names.length - climbs) ++ names

theorem Location.walk_up_nil (a : Anchor) : (Location.mk a []).walk .up = ⟨a.climb 1, []⟩ := rfl

theorem Location.walk_up_names (a : Anchor) {names : List String} (h : names ≠ []) :
    (Location.mk a names).walk .up = ⟨a, names.dropLast⟩ := if_neg h

theorem Anchor.climb_zero (a : Anchor) : a.climb 0 = a := by
  cases a <;> rfl

theorem Anchor.climb_climb (a : Anchor) (m n : Nat) : (a.climb m).climb n = a.climb (m + n) := by
  cases a with
  | root => rfl
  | above k => exact congrArg Anchor.above (Nat.add_assoc k m n)

/-- One part after a path. -/
theorem descend_walk (p : Location) (k : Nat) (ns : List String) (part : Part) :
    ∃ k' ns', (Location.mk (.above k) ns).walk part = ⟨.above k', ns'⟩ ∧
      (p.descend k ns).walk part = p.descend k' ns' := by
  cases part with
  | name n =>
    exact ⟨k, ns ++ [n], rfl, by simp only [Location.walk, Location.descend, List.append_assoc]⟩
  | up =>
    by_cases hns : ns = []
    · -- the path is still climbing
      subst hns
      refine ⟨k + 1, [], rfl, ?_⟩
      unfold Location.descend
      rw [List.append_nil, List.append_nil]
      by_cases hk : p.names.length ≤ k
      · rw [Nat.sub_eq_zero_of_le hk, Nat.sub_eq_zero_of_le (Nat.le_succ_of_le hk), List.take_zero,
          Location.walk_up_nil, Anchor.climb_climb, Nat.sub_add_comm hk]
      · have hlen : (p.names.take (p.names.length - k)).length = p.names.length - k := by
          rw [List.length_take]
          omega
        rw [Location.walk_up_names _ (List.ne_nil_of_length_pos (by omega)),
          List.dropLast_eq_take, hlen, List.take_take, Nat.min_eq_left (Nat.sub_le _ _),
          Nat.sub_sub,
          Nat.sub_eq_zero_of_le (show k ≤ p.names.length by omega),
          Nat.sub_eq_zero_of_le (show k + 1 ≤ p.names.length by omega)]
    · refine ⟨k, ns.dropLast, Location.walk_up_names _ hns, ?_⟩
      unfold Location.descend
      rw [Location.walk_up_names _ (List.append_ne_nil_of_right_ne_nil _ hns),
        List.dropLast_append_of_ne_nil hns]

/-- **A walk from a place** is the same walk from nowhere, followed from there. -/
theorem walk_descend (p : Location) (path : List Part) :
    ∃ k ns, path.foldl Location.walk ⟨.above 0, []⟩ = ⟨.above k, ns⟩ ∧
      path.foldl Location.walk p = p.descend k ns := by
  induction path using List.reverseRecOn with
  | nil =>
    refine ⟨0, [], rfl, ?_⟩
    simp only [List.foldl_nil, Location.descend, Nat.zero_sub, Anchor.climb_zero, Nat.sub_zero,
      List.take_length, List.append_nil]
  | append_singleton path part ih =>
    obtain ⟨k, ns, hnowhere, hp⟩ := ih
    obtain ⟨k', ns', hwalk, hdescend⟩ := descend_walk p k ns part
    refine ⟨k', ns', ?_, ?_⟩
    · rw [List.foldl_append, hnowhere]
      exact hwalk
    · rw [List.foldl_append, hp]
      exact hdescend

/-- **The place of a joined text**: the base, and from there the way that the other text says. -/
theorem place_join {file : String} (hfile : isAbsolute file = false) (base : String) :
    ∃ k ns, place file = ⟨.above k, ns⟩ ∧ place (join base file) = (place base).descend k ns := by
  obtain ⟨k, ns, hnowhere, hp⟩ := walk_descend (place base) (parts file)
  refine ⟨k, ns, ?_, ?_⟩
  · rw [← hnowhere]
    unfold place start
    simp [hfile]
  · rw [← hp]
    unfold place
    rw [parts_join hfile, start_join hfile, List.foldl_append]

theorem join_absolute {file : String} (hfile : isAbsolute file = true) (base : String) :
    join base file = file := by
  unfold join
  rw [if_pos hfile]

/-- A walk from the root stays there. -/
theorem place_absolute {text : String} (h : isAbsolute text = true) :
    (place text).anchor = .root := by
  obtain ⟨k, ns, -, hp⟩ := walk_descend (start text) (parts text)
  unfold place
  rw [hp]
  unfold Location.descend start
  rw [h]
  rfl

/-- The way from a place leads inside it again: it climbs no further than the names go, and then
    follows the names it has left. -/
theorem inside_descend_iff (k₀ k : Nat) (base ns : List String) :
    Inside ⟨.above k₀, base⟩ ((Location.mk (.above k₀) base).descend k ns) ↔
      k ≤ base.length ∧ base.drop (base.length - k) <+: ns := by
  unfold Inside Location.descend
  simp only [Anchor.climb, Anchor.above.injEq]
  constructor
  · intro h
    obtain ⟨hanchor, hnames⟩ := h
    refine ⟨by omega, ?_⟩
    have hsplit := List.take_append_drop (base.length - k) base
    nth_rewrite 1 [← hsplit] at hnames
    exact (List.prefix_append_right_inj _).mp hnames
  · intro h
    obtain ⟨hk, hnames⟩ := h
    refine ⟨by omega, ?_⟩
    nth_rewrite 1 [← List.take_append_drop (base.length - k) base]
    exact (List.prefix_append_right_inj _).mpr hnames

/-- How far a place lies above the working directory. -/
def Location.climbs (p : Location) : Nat :=
  match p.anchor with
  | .root => 0
  | .above k => k

/-- **When a joined text stays inside its base**: the text is not absolute, climbs no further than
    the base goes, and then follows the names of the base that it has left. -/
theorem inside_join_iff {base : String} {names : List String} {k₀ : Nat}
    (hbase : place base = ⟨.above k₀, names⟩) (file : String) :
    Inside (place base) (place (join base file)) ↔
      isAbsolute file = false ∧ (place file).climbs ≤ names.length ∧
        names.drop (names.length - (place file).climbs) <+: (place file).names := by
  cases hfile : isAbsolute file with
  | true =>
    rw [join_absolute hfile]
    constructor
    · intro h
      have hroot := (place_absolute hfile).symm.trans h.1
      rw [hbase] at hroot
      cases hroot
    · intro h
      cases h.1
  | false =>
    obtain ⟨k, ns, hplace, hjoin⟩ := place_join hfile base
    rw [hjoin, hbase, hplace, inside_descend_iff]
    exact ⟨fun h => ⟨rfl, h⟩, fun h => h.2⟩

/-! ## 4. Names -/

/-- A text that is one name. -/
structure IsName (n : String) : Prop where
  ne_empty : n.toList ≠ []
  ne_dot : n.toList ≠ ['.']
  ne_up : n.toList ≠ ['.', '.']
  no_separator : '/' ∉ n.toList

/-- A text that does not begin with a dot. -/
theorem isName_of_head {n : String} {c : Char} {cs : List Char} (h : n.toList = c :: cs)
    (hdot : c ≠ '.') (hsep : '/' ∉ n.toList) : IsName n where
  ne_empty he := by rw [h] at he; cases he
  ne_dot he := by rw [h] at he; cases he; exact hdot rfl
  ne_up he := by rw [h] at he; cases he; exact hdot rfl
  no_separator := hsep

theorem IsName.parts_eq {n : String} (h : IsName n) : parts n = [.name n] := by
  unfold parts
  rw [List.splitOn_eq_singleton h.no_separator, List.filterMap_cons_some (b := .name n),
    List.filterMap_nil]
  unfold part
  rw [if_neg (fun hp => hp.elim h.ne_empty h.ne_dot), if_neg h.ne_up, String.ofList_toList]

theorem IsName.relative {n : String} (h : IsName n) : isAbsolute n = false := by
  refine decide_eq_false fun hhead => h.no_separator ?_
  exact List.mem_of_mem_head? hhead

theorem IsName.place_eq {n : String} (h : IsName n) : place n = ⟨.above 0, [n]⟩ := by
  unfold place start
  rw [h.parts_eq, h.relative]
  rfl

/-- A name stays one, with a suffix that has no separator. -/
theorem IsName.append {n suf : String} (h : IsName n) (hsuf : '/' ∉ suf.toList) :
    IsName (n ++ suf) := by
  obtain ⟨c, cs, hcs⟩ := List.exists_cons_of_ne_nil h.ne_empty
  have htext : (n ++ suf).toList = c :: (cs ++ suf.toList) := by
    rw [String.toList_append, hcs, List.cons_append]
  refine ⟨fun he => ?_, fun he => ?_, fun he => ?_, fun he => ?_⟩
  · rw [htext] at he
    cases he
  · rw [htext, List.cons.injEq, List.append_eq_nil_iff] at he
    exact h.ne_dot (by rw [hcs, he.1, he.2.1])
  · rw [htext, List.cons.injEq, List.append_eq_singleton_iff] at he
    obtain ⟨rfl, ⟨rfl, -⟩ | ⟨rfl, -⟩⟩ := he
    · exact h.ne_dot hcs
    · exact h.ne_up hcs
  · rw [String.toList_append] at he
    exact (List.mem_append.mp he).elim h.no_separator hsuf

/-- A name in the working directory, with or without `./`. -/
theorem IsName.place_here {n : String} (h : IsName n) : place ("./" ++ n) = ⟨.above 0, [n]⟩ := by
  have hparts : parts ("./" ++ n) = parts n := by
    have hsplit := parts_separated "." n
    rwa [show parts "." = [] from by decide, List.nil_append] at hsplit
  have hrelative : isAbsolute ("./" ++ n) = false := by
    rw [isAbsolute_append (by decide) n]
    decide
  rw [← h.place_eq]
  unfold place start
  rw [hparts, hrelative, h.relative]

/-- **A name below a place.** -/
theorem IsName.place_join_eq {n : String} (h : IsName n) (base : String) :
    place (join base n) = { place base with names := (place base).names ++ [n] } := by
  unfold place
  rw [parts_join h.relative, start_join h.relative, List.foldl_append, h.parts_eq]
  rfl

/-- Behind the last separator. -/
theorem parts_last (text : String) : ∃ dir : List Part, ∃ last : List Char, '/' ∉ last ∧
    (∀ suf, suf <:+ text.toList → '/' ∉ suf → suf <:+ last) ∧
      parts text = dir ++ parts (String.ofList last) := by
  by_cases hsep : '/' ∈ text.toList.reverse
  · obtain ⟨lastRev, dirRev, hrev, hno⟩ := List.eq_append_cons_of_mem hsep
    have htext : text.toList = dirRev.reverse ++ '/' :: lastRev.reverse := by
      rw [← List.reverse_reverse text.toList, hrev]
      simp
    have hno' : '/' ∉ lastRev.reverse := fun h => hno (List.mem_reverse.mp h)
    refine ⟨parts (String.ofList dirRev.reverse), lastRev.reverse, hno',
      fun suf hsuf hclean => ?_, ?_⟩
    · rw [htext] at hsuf
      have hrest : '/' :: lastRev.reverse <:+ dirRev.reverse ++ '/' :: lastRev.reverse :=
        List.suffix_append _ _
      by_cases hle : suf.length ≤ lastRev.reverse.length
      · exact List.suffix_of_suffix_length_le hsuf ((List.suffix_cons _ _).trans hrest) hle
      · -- a suffix that goes past the separator has it
        have hpast := List.suffix_of_suffix_length_le hrest hsuf (Nat.lt_of_not_le hle)
        exact absurd (hpast.mem (List.mem_cons_self ..)) hclean
    · rw [← parts_separated]
      congr 1
      rw [← String.toList_inj, htext]
      simp
  · refine ⟨[], text.toList, fun h => hsep (List.mem_reverse.mpr h), fun suf hsuf _ => hsuf, ?_⟩
    rw [String.ofList_toList]
    rfl

/-- **How the last name of a path ends**: as the path does. -/
theorem place_getLast {text : String} {suf : List Char} (hsuf : suf <:+ text.toList)
    (hclean : '/' ∉ suf) (hlen : 2 < suf.length) :
    ∃ n, (place text).names.getLast? = some n ∧ suf <:+ n.toList := by
  obtain ⟨dir, last, hno, hends, hparts⟩ := parts_last text
  have hlast := hends suf hsuf hclean
  have hname : IsName (String.ofList last) := by
    have hle := hlast.length_le
    refine ⟨fun h => ?_, fun h => ?_, fun h => ?_, by rwa [String.toList_ofList]⟩ <;>
      · rw [String.toList_ofList] at h
        subst h
        simp only [List.length_nil, List.length_cons] at hle
        omega
  refine ⟨String.ofList last, ?_, by rwa [String.toList_ofList]⟩
  unfold place
  rw [hparts, hname.parts_eq, List.foldl_append]
  exact List.getLast?_concat

/-- A text ends in another. -/
def Ends (suf text : String) : Prop := suf.toList <:+ text.toList

theorem ends_append (text suf : String) : Ends suf (text ++ suf) := by
  unfold Ends
  rw [String.toList_append]
  exact List.suffix_append _ _

theorem Ends.append {suf text : String} (h : Ends suf text) (pre : String) :
    Ends suf (pre ++ text) := by
  unfold Ends
  rw [String.toList_append]
  exact h.trans (List.suffix_append _ _)

theorem Ends.join {suf file : String} (h : Ends suf file) (base : String) :
    Ends suf (join base file) := by
  unfold Paths.join
  split
  · exact h
  · split <;> exact h.append _

/-- Two endings that no name has both. -/
def Apart (p q : String) : Prop :=
  ('/' ∉ p.toList ∧ 2 < p.toList.length) ∧ ('/' ∉ q.toList ∧ 2 < q.toList.length) ∧
    ¬ Ends p q ∧ ¬ Ends q p

instance instDecidableApart (p q : String) : Decidable (Apart p q) :=
  inferInstanceAs (Decidable ((_ ∧ _) ∧ (_ ∧ _) ∧ ¬ (_ <:+ _) ∧ ¬ (_ <:+ _)))

/-- **Paths that end differently** name different places. -/
theorem Apart.place_ne {p q s t : String} (h : Apart p q) (hs : Ends p s) (ht : Ends q t) :
    place s ≠ place t := by
  obtain ⟨⟨hp, hplen⟩, ⟨hq, hqlen⟩, hpq, hqp⟩ := h
  intro heq
  obtain ⟨n, hn, hpn⟩ := place_getLast hs hp hplen
  obtain ⟨m, hm, hqm⟩ := place_getLast ht hq hqlen
  rw [heq, hm, Option.some.injEq] at hn
  subst hn
  rcases Nat.le_total p.toList.length q.toList.length with hle | hle
  · exact hpq (List.suffix_of_suffix_length_le hpn hqm hle)
  · exact hqp (List.suffix_of_suffix_length_le hqm hpn hle)

end Lib.Paths
