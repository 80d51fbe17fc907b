import GameQuery.Filter
import GameQuery.Proofs.StatusText
import Mathlib.Tactic.IntervalCases

namespace GameQuery

/-!
# Filters that survive their text

A filter is written as a list of pairs and read pair by pair. It comes back if it is canonical: no
backslash ends a value early, the tags can be told apart, every condition that is set is asked
about, and every condition that is asked about has a name to write. Whatever is read is canonical,
so a filter that is not canonical never comes back.
-/

namespace Text

/-! ## Numerals and pieces -/

theorem decimalValue_decimal (n : Nat) : decimalValue (decimal n) = n :=
  Nat.ofDigitChars_toDigits (by decide) (by decide)

theorem isDigit_of_mem_decimal {n : Nat} {c : Char} (h : c ∈ decimal n) : c.isDigit = true :=
  Nat.isDigit_of_mem_toDigits (by decide) (by decide) h

theorem unsigned_decimal (n : Nat) : unsigned (decimal n) = decimal n := by
  have hdigit : ∀ c ∈ decimal n, c.isDigit = true := fun c => isDigit_of_mem_decimal
  unfold unsigned
  split
  · next digits h =>
    rw [h] at hdigit
    exact absurd (hdigit '+' List.mem_cons_self) (by decide)
  · rfl

theorem readNat_decimal {n bound : Nat} (h : n < bound) : readNat bound (decimal n) = some n := by
  have hne : decimal n ≠ [] := Nat.toDigits_ne_nil
  have hall : (decimal n).all Char.isDigit = true :=
    List.all_eq_true.2 fun c => isDigit_of_mem_decimal
  simp only [readNat, unsigned_decimal, decimalValue_decimal]
  exact if_pos ⟨hne, hall, h⟩

theorem readUInt32_decimal (n : UInt32) : readUInt32 (decimal n.toNat) = some n := by
  rw [readUInt32, readNat_decimal n.toNat_lt, Option.map_some, UInt32.ofNat_toNat]

/-- A piece has the characters of the text but those at which it is cut. -/
theorem mem_of_mem_splitAtEach {p : Char → Bool} {cs piece : List Char} {c : Char}
    (h : piece ∈ splitAtEach p cs) (hc : c ∈ piece) : c ∈ cs ∧ p c = false := by
  induction cs generalizing piece with
  | nil =>
    rw [splitAtEach, List.mem_singleton] at h
    rw [h] at hc
    exact absurd hc List.not_mem_nil
  | cons d cs ih =>
    rw [splitAtEach] at h
    split at h
    · rcases List.mem_cons.1 h with rfl | h
      · exact absurd hc List.not_mem_nil
      · exact (ih h hc).imp_left (List.mem_cons_of_mem d)
    · next hd =>
      split at h
      · next hnil => exact absurd hnil (splitAtEach_ne_nil p cs)
      · next first pieces hsplit =>
        rw [hsplit] at ih
        rcases List.mem_cons.1 h with rfl | h
        · rcases List.mem_cons.1 hc with rfl | hc
          · exact ⟨List.mem_cons_self, Bool.eq_false_iff.2 hd⟩
          · exact (ih List.mem_cons_self hc).imp_left (List.mem_cons_of_mem d)
        · exact (ih (List.mem_cons_of_mem first h) hc).imp_left (List.mem_cons_of_mem d)

end Text

namespace Filter

/-! ## Canonical filters -/

/-- No condition is set that is not asked about. -/
def FlagsAsked (f : Filter) : Prop := ∀ i, f.flags.getLsbD i = true → f.mask.getLsbD i = true

/-- No condition is asked about that has no name. -/
def FlagsNamed (f : Filter) : Prop := ∀ i, f.mask.getLsbD i = true → i < Flags.names.length

/-- A tag that is neither empty nor cut in two by a comma. -/
structure CanonicalTag (tag : String) : Prop where
  nonempty : tag ≠ ""
  noComma : ',' ∉ tag.toList
  noBackslash : '\\' ∉ tag.toList

/-- A filter whose texts can be told apart, and that asks about what it sets. -/
structure Separable (f : Filter) : Prop where
  gamedir : ∀ s ∈ f.gamedir, '\\' ∉ s.toList
  map : ∀ s ∈ f.map, '\\' ∉ s.toList
  tags : ∀ tag ∈ f.gametype, CanonicalTag tag
  nameMatch : ∀ s ∈ f.nameMatch, '\\' ∉ s.toList
  versionMatch : ∀ s ∈ f.versionMatch, '\\' ∉ s.toList
  gameaddr : ∀ s ∈ f.gameaddr, '\\' ∉ s.toList
  flags : f.FlagsAsked

/-- A filter that can be written. -/
structure Canonical (f : Filter) : Prop extends Separable f where
  named : f.FlagsNamed

variable {f g : Filter} {key value : List Char}

/-! ## What is read -/

theorem FlagsAsked.setFlags (h : f.FlagsAsked) (flags : Flags) (value : Bool) :
    (f.setFlags flags value).FlagsAsked := by
  intro i hi
  have hf := h i
  cases value <;> simp [Filter.setFlags] at hi ⊢ <;> grind

theorem getLsbD_single (n i : Nat) :
    (Flags.single n).getLsbD i = (decide (n < 16) && decide (i = n)) := by
  rw [Flags.single, BitVec.getLsbD_twoPow]
  grind

theorem FlagsNamed.setFlags (h : f.FlagsNamed) {flags : Flags}
    (hflags : ∀ i, flags.getLsbD i = true → i < Flags.names.length) (value : Bool) :
    (f.setFlags flags value).FlagsNamed := by
  intro i hi
  rw [Filter.setFlags, BitVec.getLsbD_or, Bool.or_eq_true] at hi
  exact hi.elim (h i) (hflags i)

theorem lt_of_ofName? {name : String} {flags : Flags} (h : Flags.ofName? name = some flags)
    {i : Nat} (hi : flags.getLsbD i = true) : i < Flags.names.length := by
  obtain ⟨n, hn, rfl⟩ := Option.map_eq_some_iff.1 h
  rw [getLsbD_single, Bool.and_eq_true, decide_eq_true_iff, decide_eq_true_iff] at hi
  rw [hi.2]
  exact (List.findIdx?_eq_some_iff_getElem.1 hn).1

theorem Canonical.setFlags (h : f.Canonical) {flags : Flags}
    (hflags : ∀ i, flags.getLsbD i = true → i < Flags.names.length) (value : Bool) :
    (f.setFlags flags value).Canonical :=
  { h with
    flags := h.flags.setFlags flags value
    named := h.named.setFlags hflags value }

theorem canonicalTag_of_mem_readTags (hvalue : '\\' ∉ value) {tag : String}
    (h : tag ∈ readTags value) : CanonicalTag tag := by
  obtain ⟨piece, hpiece, rfl⟩ := List.mem_map.1 h
  obtain ⟨hpiece, hne⟩ := List.mem_filter.1 hpiece
  have hchars := fun c => Text.mem_of_mem_splitAtEach (c := c) hpiece
  constructor
  · intro hempty
    have hnil := congrArg String.toList hempty
    rw [String.toList_ofList] at hnil
    exact of_decide_eq_true hne hnil
  · rw [String.toList_ofList]
    intro hcomma
    exact of_decide_eq_false (hchars ',' hcomma).2 rfl
  · rw [String.toList_ofList]
    intro hbackslash
    exact hvalue (hchars '\\' hbackslash).1

theorem Canonical.addPair (h : f.Canonical) (hvalue : '\\' ∉ value)
    (hg : f.addPair key value = some g) : g.Canonical := by
  have htext : ∀ s ∈ some (String.ofList value), '\\' ∉ s.toList := by
    rintro s ⟨⟩
    rwa [String.toList_ofList]
  unfold Filter.addPair at hg
  split at hg
  · cases hg
    exact { h with gamedir := htext }
  · cases hg
    exact { h with map := htext }
  · obtain ⟨n, -, rfl⟩ := Option.map_eq_some_iff.1 hg
    exact { h with }
  · obtain ⟨n, -, rfl⟩ := Option.map_eq_some_iff.1 hg
    exact { h with }
  · cases hg
    refine { h with tags := fun tag htag => ?_ }
    rcases List.mem_append.1 htag with htag | htag
    · exact h.tags tag htag
    · exact canonicalTag_of_mem_readTags hvalue htag
  · cases hg
    exact { h with nameMatch := htext }
  · cases hg
    exact { h with versionMatch := htext }
  · cases hg
    exact { h with gameaddr := htext }
  · split at hg
    · next hname =>
      obtain ⟨v, -, rfl⟩ := Option.map_eq_some_iff.1 hg
      exact h.setFlags (fun i => lt_of_ofName? hname) v
    · cases hg
      exact h

theorem Canonical.addPairs (h : f.Canonical) {pieces : List (List Char)}
    (hpieces : ∀ piece ∈ pieces, '\\' ∉ piece) (hg : f.addPairs pieces = some g) :
    g.Canonical := by
  fun_induction Filter.addPairs f pieces with
  | case1 f =>
    cases hg
    exact h
  | case2 f key => cases hg
  | case3 f key value rest ih =>
    obtain ⟨f', hf', hg⟩ := Option.bind_eq_some_iff.1 hg
    obtain ⟨hvalue, hrest⟩ := List.forall_mem_cons.1 (List.forall_mem_cons.1 hpieces).2
    exact ih f' (h.addPair hvalue hf') hrest hg

theorem canonical_empty : Canonical {} where
  gamedir := nofun
  map := nofun
  tags := nofun
  nameMatch := nofun
  versionMatch := nofun
  gameaddr := nofun
  flags := by
    intro i hi
    exact hi
  named := by
    intro i hi
    have hclear : (0#16).getLsbD i = false := BitVec.getLsbD_zero
    exact absurd (hclear.symm.trans hi) Bool.false_ne_true

theorem canonical_of_parse {text : List Char} (h : parse text = .ok f) : f.Canonical := by
  unfold parse at h
  split at h
  · cases h
    exact canonical_empty
  · next rest =>
    have hpieces : ∀ piece ∈ Text.splitAtEach (· = '\\') rest, '\\' ∉ piece := by
      intro piece hpiece hmem
      exact of_decide_eq_false (Text.mem_of_mem_splitAtEach hpiece hmem).2 rfl
    split at h
    · next hadd =>
      cases h
      exact canonical_empty.addPairs hpieces hadd
    · cases h
  · cases h

/-! ## What is written -/

/-- Pairs of keys and values, each behind a backslash. -/
def pairsText (pairs : List (List Char × List Char)) : List Char :=
  pairs.flatMap fun p => pairText p.1 p.2

/-- Adds some pairs, as long as they can be read. -/
def addAll (f : Filter) (pairs : List (List Char × List Char)) : Option Filter :=
  pairs.foldlM (fun f p => f.addPair p.1 p.2) f

theorem addAll_append (f : Filter) (ps qs : List (List Char × List Char)) :
    f.addAll (ps ++ qs) = (f.addAll ps).bind fun f => f.addAll qs := by
  rw [addAll, List.foldlM_append]
  rfl

theorem addPairs_flatMap (f : Filter) (pairs : List (List Char × List Char)) :
    f.addPairs (pairs.flatMap fun p => [p.1, p.2]) = f.addAll pairs := by
  induction pairs generalizing f with
  | nil => rfl
  | cons p pairs ih =>
    change (f.addPair p.1 p.2).bind _ = (f.addPair p.1 p.2).bind _
    congr 1
    funext f'
    exact ih f'

/-- Pairs without a backslash in them. -/
def BackslashFree (pairs : List (List Char × List Char)) : Prop :=
  ∀ p ∈ pairs, '\\' ∉ p.1 ∧ '\\' ∉ p.2

theorem splitAtEach_pairsText {pairs : List (List Char × List Char)} (hvalue : '\\' ∉ value)
    (hpairs : BackslashFree pairs) :
    Text.splitAtEach (· = '\\') (value ++ pairsText pairs) =
      value :: pairs.flatMap fun p => [p.1, p.2] := by
  have hfree : ∀ cs : List Char, '\\' ∉ cs → ∀ c ∈ cs, decide (c = '\\') = false :=
    fun cs hcs c hc => decide_eq_false fun he => hcs (he ▸ hc)
  induction pairs generalizing value with
  | nil =>
    change Text.splitAtEach (· = '\\') (value ++ []) = [value]
    rw [List.append_nil]
    exact Text.splitAtEach_of_forall (hfree value hvalue)
  | cons p pairs ih =>
    obtain ⟨⟨hkey, hvalue'⟩, hrest⟩ := List.forall_mem_cons.1 hpairs
    have htext : pairsText (p :: pairs) = '\\' :: (p.1 ++ '\\' :: (p.2 ++ pairsText pairs)) := by
      simp [pairsText, pairText]
    rw [htext, Text.splitAtEach_append_cons (hfree value hvalue) (decide_eq_true rfl),
      Text.splitAtEach_append_cons (hfree p.1 hkey) (decide_eq_true rfl), ih hvalue' hrest]
    rfl

theorem parse_pairsText {pairs : List (List Char × List Char)} (hpairs : BackslashFree pairs)
    (h : addAll {} pairs = some f) : parse (pairsText pairs) = .ok f := by
  cases pairs with
  | nil =>
    cases h
    rfl
  | cons p pairs =>
    have hempty : '\\' ∉ ([] : List Char) := List.not_mem_nil
    have hsplit := splitAtEach_pairsText hempty hpairs
    have htext : pairsText (p :: pairs) = '\\' :: (p.1 ++ '\\' :: (p.2 ++ pairsText pairs)) := by
      simp [pairsText, pairText]
    rw [htext] at hsplit ⊢
    rw [List.nil_append, Text.splitAtEach, if_pos (decide_eq_true rfl)] at hsplit
    rw [parse, (List.cons.inj hsplit).2, addPairs_flatMap, h]

/-! ## The pairs of a filter -/

def optionPairs (key : String) (value : Option (List Char)) : List (List Char × List Char) :=
  (value.map fun v => (key.toList, v)).toList

def tagPairs (tags : List String) : List (List Char × List Char) :=
  if tags.isEmpty then []
  else [("gametype".toList, Text.join [','] (tags.map String.toList))]

/-- The pairs of the conditions asked about, from position `i` on. -/
def flagPairs (f : Filter) : Nat → List String → List (List Char × List Char)
  | _, [] => []
  | i, name :: names =>
    (if f.mask.getLsbD i then [(name.toList, [if f.flags.getLsbD i then '1' else '0'])] else []) ++
      f.flagPairs (i + 1) names

def pairs (f : Filter) : List (List Char × List Char) :=
  optionPairs "gamedir" (f.gamedir.map String.toList) ++
  optionPairs "map" (f.map.map String.toList) ++
  optionPairs "appid" (f.appId.map fun n => Text.decimal n.toNat) ++
  optionPairs "napp" (f.napp.map fun n => Text.decimal n.toNat) ++
  tagPairs f.gametype ++
  optionPairs "name_match" (f.nameMatch.map String.toList) ++
  optionPairs "version_match" (f.versionMatch.map String.toList) ++
  optionPairs "gameaddr" (f.gameaddr.map String.toList) ++
  f.flagPairs 0 Flags.names

theorem pairsText_append (ps qs : List (List Char × List Char)) :
    pairsText (ps ++ qs) = pairsText ps ++ pairsText qs := List.flatMap_append

theorem optionText_eq (key : String) (v : Option (List Char)) :
    optionText key v = pairsText (optionPairs key v) := by
  cases v with
  | none => rfl
  | some v => exact (List.append_nil _).symm

theorem tagsText_eq (tags : List String) : tagsText tags = pairsText (tagPairs tags) := by
  unfold tagsText tagPairs
  split
  · rfl
  · exact (List.append_nil _).symm

theorem flagsText_eq (f : Filter) (i : Nat) (names : List String) :
    f.flagsText i names = pairsText (f.flagPairs i names) := by
  induction names generalizing i with
  | nil => rfl
  | cons name names ih =>
    rw [flagsText, flagPairs, pairsText_append, ih]
    congr 1
    split
    · exact (List.append_nil _).symm
    · rfl

theorem text_eq (f : Filter) : f.text = pairsText f.pairs := by
  simp only [text, pairs, pairsText_append, optionText_eq, tagsText_eq, flagsText_eq]

theorem backslashFree_append {ps qs : List (List Char × List Char)} (hps : BackslashFree ps)
    (hqs : BackslashFree qs) : BackslashFree (ps ++ qs) := by
  intro p hp
  rcases List.mem_append.1 hp with hp | hp
  · exact hps p hp
  · exact hqs p hp

theorem backslashFree_optionPairs {α : Type} {key : String} {v : Option α}
    {write : α → List Char} (hkey : '\\' ∉ key.toList) (hv : ∀ a ∈ v, '\\' ∉ write a) :
    BackslashFree (optionPairs key (v.map write)) := by
  intro p hp
  cases v with
  | none => exact absurd hp List.not_mem_nil
  | some a =>
    cases List.mem_singleton.1 hp
    exact ⟨hkey, hv a rfl⟩

theorem mem_join {sep c : Char} {parts : List (List Char)} (h : c ∈ Text.join [sep] parts) :
    c = sep ∨ ∃ part ∈ parts, c ∈ part := by
  fun_induction Text.join [sep] parts with
  | case1 => exact absurd h List.not_mem_nil
  | case2 part => exact .inr ⟨part, List.mem_singleton_self part, h⟩
  | case3 part parts _ ih =>
    rcases List.mem_append.1 h with h | h
    · rcases List.mem_append.1 h with h | h
      · exact .inr ⟨part, List.mem_cons_self, h⟩
      · exact .inl (List.mem_singleton.1 h)
    · refine (ih h).imp_right ?_
      rintro ⟨p, hp, hc⟩
      exact ⟨p, List.mem_cons_of_mem part hp, hc⟩

theorem backslashFree_tagPairs {tags : List String} (h : ∀ tag ∈ tags, CanonicalTag tag) :
    BackslashFree (tagPairs tags) := by
  unfold tagPairs
  split
  · exact nofun
  · intro p hp
    cases List.mem_singleton.1 hp
    have hkey : '\\' ∉ "gametype".toList := by decide
    refine ⟨hkey, fun hmem => ?_⟩
    rcases mem_join hmem with hsep | ⟨part, hpart, hmem⟩
    · exact absurd hsep (by decide)
    · obtain ⟨tag, htag, rfl⟩ := List.mem_map.1 hpart
      exact (h tag htag).noBackslash hmem

theorem backslashFree_flagPairs (f : Filter) (i : Nat) {names : List String}
    (h : ∀ name ∈ names, '\\' ∉ name.toList) : BackslashFree (f.flagPairs i names) := by
  induction names generalizing i with
  | nil => exact nofun
  | cons name names ih =>
    obtain ⟨hname, hnames⟩ := List.forall_mem_cons.1 h
    refine backslashFree_append ?_ (ih (i + 1) hnames)
    split
    · intro p hp
      cases List.mem_singleton.1 hp
      have hvalue : ∀ b : Bool, '\\' ∉ [if b then '1' else '0'] := by decide
      exact ⟨hname, hvalue (f.flags.getLsbD i)⟩
    · exact nofun

theorem backslashFree_pairs (h : f.Canonical) : BackslashFree f.pairs := by
  have hdecimal : ∀ n : UInt32, '\\' ∉ Text.decimal n.toNat := by
    intro n hn
    exact absurd (Text.isDigit_of_mem_decimal hn) (by decide)
  refine backslashFree_append (backslashFree_append (backslashFree_append (backslashFree_append
    (backslashFree_append (backslashFree_append (backslashFree_append (backslashFree_append
    ?_ ?_) ?_) ?_) ?_) ?_) ?_) ?_) ?_
  · exact backslashFree_optionPairs (by decide) h.gamedir
  · exact backslashFree_optionPairs (by decide) h.map
  · exact backslashFree_optionPairs (by decide) fun n _ => hdecimal n
  · exact backslashFree_optionPairs (by decide) fun n _ => hdecimal n
  · exact backslashFree_tagPairs h.tags
  · exact backslashFree_optionPairs (by decide) h.nameMatch
  · exact backslashFree_optionPairs (by decide) h.versionMatch
  · exact backslashFree_optionPairs (by decide) h.gameaddr
  · exact backslashFree_flagPairs f 0 (by decide)

/-! ## What comes back -/

theorem addAll_optionPairs {α : Type} {key : String} {v : Option α} {write : α → List Char}
    (put : Option α → Filter) (hnone : put none = g)
    (hsome : ∀ a, g.addPair key.toList (write a) = some (put (some a))) :
    g.addAll (optionPairs key (v.map write)) = some (put v) := by
  cases v with
  | none => exact congrArg some hnone.symm
  | some a =>
    change (g.addPair key.toList (write a)).bind some = _
    rw [hsome, Option.bind_some]

theorem readTags_join {tags : List String} (h : ∀ tag ∈ tags, CanonicalTag tag)
    (hne : tags ≠ []) : readTags (Text.join [','] (tags.map String.toList)) = tags := by
  have hcommas : ∀ part ∈ tags.map String.toList, ',' ∉ part := by
    intro part hpart
    obtain ⟨tag, htag, rfl⟩ := List.mem_map.1 hpart
    exact (h tag htag).noComma
  have hfilter : (tags.map String.toList).filter (· ≠ []) = tags.map String.toList := by
    refine List.filter_eq_self.2 fun part hpart => ?_
    obtain ⟨tag, htag, rfl⟩ := List.mem_map.1 hpart
    exact decide_eq_true fun hnil => (h tag htag).nonempty (String.toList_eq_nil_iff.1 hnil)
  have hmap : tags.map String.toList ≠ [] := fun hnil => hne (List.map_eq_nil_iff.1 hnil)
  rw [readTags, Text.splitAtEach_join hmap hcommas, hfilter, List.map_map]
  simp [Function.comp_def]

theorem addAll_tagPairs {tags : List String} (h : ∀ tag ∈ tags, CanonicalTag tag)
    (hg : g.gametype = []) : g.addAll (tagPairs tags) = some { g with gametype := tags } := by
  cases tags with
  | nil =>
    change some g = some { g with gametype := [] }
    rw [← hg]
  | cons tag tags =>
    have hread := readTags_join h (List.cons_ne_nil tag tags)
    rw [List.map_cons] at hread
    change (g.addPair "gametype".toList _).bind some = _
    simp [addPair, hread, hg]

/-- The first `n` conditions of a set. -/
def firstFlags (n : Nat) (flags : Flags) : Flags := flags &&& BitVec.ofNat 16 (2 ^ n - 1)

theorem getLsbD_firstFlags (n : Nat) (flags : Flags) (i : Nat) :
    (firstFlags n flags).getLsbD i = (flags.getLsbD i && decide (i < n)) := by
  have hsmall : flags.getLsbD i = true → i < 16 := BitVec.lt_of_getLsbD
  rw [firstFlags, BitVec.getLsbD_and, BitVec.getLsbD_ofNat, Nat.testBit_two_pow_sub_one]
  grind

/-- The filter when the first `n` conditions of `f` have been read. -/
def withFirst (g f : Filter) (n : Nat) : Filter :=
  { g with flags := firstFlags n f.flags, mask := firstFlags n f.mask }

theorem withFirst_zero (f : Filter) (hflags : g.flags = 0) (hmask : g.mask = 0) :
    withFirst g f 0 = g := by
  have hnone : ∀ flags : Flags, firstFlags 0 flags = 0 := by simp [firstFlags]
  rw [withFirst, hnone, hnone]
  cases g
  cases hflags
  cases hmask
  rfl

/-- The conditions with a name are all that a filter that can be written has. -/
theorem withFirst_nine (g : Filter) (hasked : f.FlagsAsked) (hnamed : f.FlagsNamed) :
    withFirst g f 9 = { g with flags := f.flags, mask := f.mask } := by
  have hall : ∀ flags : Flags, (∀ i, flags.getLsbD i = true → i < 9) →
      firstFlags 9 flags = flags := by
    intro flags hflags
    refine BitVec.eq_of_getLsbD_eq fun i _ => ?_
    rw [getLsbD_firstFlags]
    have hi := hflags i
    grind
  rw [withFirst, hall f.flags fun i hi => hnamed i (hasked i hi), hall f.mask hnamed]

/-- Reading a condition that is asked about. -/
theorem setFlags_withFirst {n : Nat} (hn : f.mask.getLsbD n = true) :
    (withFirst g f n).setFlags (Flags.single n) (f.flags.getLsbD n) = withFirst g f (n + 1) := by
  have hlt : n < 16 := BitVec.lt_of_getLsbD hn
  have hmask : firstFlags n f.mask ||| Flags.single n = firstFlags (n + 1) f.mask := by
    refine BitVec.eq_of_getLsbD_eq fun i hi => ?_
    rw [BitVec.getLsbD_or, getLsbD_firstFlags, getLsbD_firstFlags, getLsbD_single]
    grind
  have hflags : (if f.flags.getLsbD n then firstFlags n f.flags ||| Flags.single n
      else firstFlags n f.flags &&& ~~~Flags.single n) = firstFlags (n + 1) f.flags := by
    refine BitVec.eq_of_getLsbD_eq fun i hi => ?_
    split
    · rw [BitVec.getLsbD_or, getLsbD_firstFlags, getLsbD_firstFlags, getLsbD_single]
      grind
    · rw [BitVec.getLsbD_and, BitVec.getLsbD_not, getLsbD_firstFlags, getLsbD_firstFlags,
        getLsbD_single]
      grind
  simp only [withFirst, setFlags, hmask, hflags]

/-- A condition that is not asked about is not set either. -/
theorem withFirst_succ_of_not_asked (h : f.FlagsAsked) {n : Nat} (hn : f.mask.getLsbD n = false) :
    withFirst g f (n + 1) = withFirst g f n := by
  have hsame : ∀ flags : Flags, flags.getLsbD n = false →
      firstFlags (n + 1) flags = firstFlags n flags := by
    intro flags hflags
    refine BitVec.eq_of_getLsbD_eq fun i hi => ?_
    rw [getLsbD_firstFlags, getLsbD_firstFlags]
    grind
  have hclear : f.flags.getLsbD n = false := by
    rw [← Bool.not_eq_true]
    intro hset
    rw [h n hset] at hn
    cases hn
  simp only [withFirst, hsame _ hn, hsame _ hclear]

theorem addPair_flag {name : String} {n : Nat} (hname : Flags.names[n]? = some name) (b : Bool) :
    g.addPair name.toList [if b then '1' else '0'] = some (g.setFlags (Flags.single n) b) := by
  have hn : n < 9 := (List.getElem?_eq_some_iff.1 hname).1
  interval_cases n <;> cases hname <;> cases b <;> rfl

theorem addAll_flagPairs (h : f.FlagsAsked) {n : Nat} {names : List String} (hn : n ≤ 9)
    (hnames : Flags.names.drop n = names) :
    (withFirst g f n).addAll (f.flagPairs n names) = some (withFirst g f 9) := by
  induction names generalizing n with
  | nil =>
    have hle : 9 ≤ n := List.drop_eq_nil_iff.1 hnames
    rw [Nat.le_antisymm hn hle]
    rfl
  | cons name names ih =>
    have hlt : n < Flags.names.length := by
      rw [← List.drop_eq_nil_iff.not.trans Nat.not_le, hnames]
      exact List.cons_ne_nil name names
    have hdrop := List.drop_eq_getElem_cons hlt
    rw [hnames, List.cons.injEq] at hdrop
    obtain ⟨rfl, hrest⟩ := hdrop
    have hnext := ih hlt hrest.symm
    rw [flagPairs, addAll_append]
    cases hasked : f.mask.getLsbD n with
    | true =>
      have hread := addPair_flag (g := withFirst g f n) (List.getElem?_eq_getElem hlt)
        (f.flags.getLsbD n)
      rw [setFlags_withFirst hasked] at hread
      rw [if_pos rfl]
      change ((Filter.addPair _ _ _).bind some).bind _ = _
      rw [hread]
      exact hnext
    | false =>
      rw [withFirst_succ_of_not_asked h hasked] at hnext
      exact hnext

/-- One pair after another puts its value back into its place. -/
theorem addAll_pairs (h : f.Canonical) : addAll {} f.pairs = some f := by
  have hgamedir (g : Filter) (hg : g.gamedir = none) :
      g.addAll (optionPairs "gamedir" (f.gamedir.map String.toList)) =
        some { g with gamedir := f.gamedir } :=
    addAll_optionPairs (fun v => { g with gamedir := v }) (by rw [← hg])
      fun s => by simp [addPair]
  have hmap (g : Filter) (hg : g.map = none) :
      g.addAll (optionPairs "map" (f.map.map String.toList)) = some { g with map := f.map } :=
    addAll_optionPairs (fun v => { g with map := v }) (by rw [← hg])
      fun s => by simp [addPair]
  have happId (g : Filter) (hg : g.appId = none) :
      g.addAll (optionPairs "appid" (f.appId.map fun n => Text.decimal n.toNat)) =
        some { g with appId := f.appId } :=
    addAll_optionPairs (fun v => { g with appId := v }) (by rw [← hg])
      fun n => by simp [addPair, Text.readUInt32_decimal]
  have hnapp (g : Filter) (hg : g.napp = none) :
      g.addAll (optionPairs "napp" (f.napp.map fun n => Text.decimal n.toNat)) =
        some { g with napp := f.napp } :=
    addAll_optionPairs (fun v => { g with napp := v }) (by rw [← hg])
      fun n => by simp [addPair, Text.readUInt32_decimal]
  have hname (g : Filter) (hg : g.nameMatch = none) :
      g.addAll (optionPairs "name_match" (f.nameMatch.map String.toList)) =
        some { g with nameMatch := f.nameMatch } :=
    addAll_optionPairs (fun v => { g with nameMatch := v }) (by rw [← hg])
      fun s => by simp [addPair]
  have hversion (g : Filter) (hg : g.versionMatch = none) :
      g.addAll (optionPairs "version_match" (f.versionMatch.map String.toList)) =
        some { g with versionMatch := f.versionMatch } :=
    addAll_optionPairs (fun v => { g with versionMatch := v }) (by rw [← hg])
      fun s => by simp [addPair]
  have hgameaddr (g : Filter) (hg : g.gameaddr = none) :
      g.addAll (optionPairs "gameaddr" (f.gameaddr.map String.toList)) =
        some { g with gameaddr := f.gameaddr } :=
    addAll_optionPairs (fun v => { g with gameaddr := v }) (by rw [← hg])
      fun s => by simp [addPair]
  have hflags (g : Filter) (hflags : g.flags = 0) (hmask : g.mask = 0) :
      g.addAll (f.flagPairs 0 Flags.names) = some { g with flags := f.flags, mask := f.mask } := by
    have hread := addAll_flagPairs (g := g) h.flags (Nat.zero_le 9) List.drop_zero
    rwa [withFirst_zero f hflags hmask, withFirst_nine g h.flags h.named] at hread
  simp only [pairs, addAll_append]
  rw [hgamedir _ rfl, Option.bind_some, hmap _ rfl, Option.bind_some, happId _ rfl,
    Option.bind_some, hnapp _ rfl, Option.bind_some, addAll_tagPairs h.tags rfl, Option.bind_some,
    hname _ rfl, Option.bind_some, hversion _ rfl, Option.bind_some, hgameaddr _ rfl,
    Option.bind_some, hflags _ rfl rfl]

theorem parse_text_of_canonical (h : f.Canonical) : parse f.text = .ok f := by
  rw [text_eq]
  exact parse_pairsText (backslashFree_pairs h) (addAll_pairs h)

/-! ## Building -/

/-- One call that a program makes to build a filter. -/
inductive Step where
  | gamedir (s : String)
  | map (s : String)
  | appId (n : UInt32)
  | napp (n : UInt32)
  | tag (s : String)
  | nameMatch (s : String)
  | versionMatch (s : String)
  | gameaddr (s : String)
  | flags (flags : Flags) (value : Bool)

def apply (f : Filter) : Step → Filter
  | .gamedir s => { f with gamedir := some s }
  | .map s => { f with map := some s }
  | .appId n => { f with appId := some n }
  | .napp n => { f with napp := some n }
  | .tag s => f.addTag s
  | .nameMatch s => { f with nameMatch := some s }
  | .versionMatch s => { f with versionMatch := some s }
  | .gameaddr s => { f with gameaddr := some s }
  | .flags flags value => f.setFlags flags value

/-- The filter that some calls build. -/
def build (steps : List Step) : Filter := steps.foldl apply {}

theorem FlagsAsked.apply (h : f.FlagsAsked) (step : Step) : (f.apply step).FlagsAsked := by
  cases step with
  | flags flags value => exact h.setFlags flags value
  | _ => exact h

theorem flagsAsked_build (steps : List Step) : (build steps).FlagsAsked := by
  have hrun : ∀ f : Filter, f.FlagsAsked → (steps.foldl Filter.apply f).FlagsAsked := by
    induction steps with
    | nil => exact fun f h => h
    | cons step steps ih => exact fun f h => ih (f.apply step) (h.apply step)
  exact hrun {} canonical_empty.flags

theorem eq_none_of_optionText {α : Type} {key : String} {v : Option α} {write : α → List Char}
    (h : optionText key (v.map write) = []) : v = none := by
  cases v with
  | none => rfl
  | some a => cases h

theorem eq_nil_of_tagsText {tags : List String} (h : tagsText tags = []) : tags = [] := by
  cases tags with
  | nil => rfl
  | cons tag tags => cases h

/-- A filter without a text holds nothing that cannot be written but conditions without a name. -/
theorem canonical_of_text_eq_nil (hasked : f.FlagsAsked) (hnamed : f.FlagsNamed)
    (h : f.text = []) : f.Canonical := by
  have hnone : ∀ v : Option String, v = none → ∀ s ∈ v, '\\' ∉ s.toList := by
    rintro v rfl
    exact nofun
  simp only [text, List.append_eq_nil_iff] at h
  obtain ⟨⟨⟨⟨⟨⟨⟨⟨hgamedir, hmap⟩, -⟩, -⟩, htags⟩, hname⟩, hversion⟩, hgameaddr⟩, -⟩ := h
  have htagged : ∀ tag ∈ f.gametype, CanonicalTag tag := by
    rw [eq_nil_of_tagsText htags]
    exact nofun
  exact {
    gamedir := hnone _ (eq_none_of_optionText hgamedir)
    map := hnone _ (eq_none_of_optionText hmap)
    tags := htagged
    nameMatch := hnone _ (eq_none_of_optionText hname)
    versionMatch := hnone _ (eq_none_of_optionText hversion)
    gameaddr := hnone _ (eq_none_of_optionText hgameaddr)
    flags := hasked
    named := hnamed }

theorem isEmpty_iff (hasked : f.FlagsAsked) :
    f.isEmpty = true ↔ f.text = [] ∧ f.FlagsNamed := by
  rw [isEmpty, decide_eq_true_iff]
  constructor
  · intro hempty
    rw [hempty]
    exact ⟨rfl, canonical_empty.named⟩
  · rintro ⟨htext, hnamed⟩
    have hparse := parse_text_of_canonical (canonical_of_text_eq_nil hasked hnamed htext)
    rw [htext, parse_nil] at hparse
    exact (Except.ok.inj hparse).symm

/-- Reading the text of a filter gives the filter back exactly if it is canonical, and whatever is
read is canonical. A filter that is built asks about every condition it sets, and it lets every
server pass exactly if its text is empty and no condition without a name is asked about. -/
theorem parse_text_iff_canonical :
    (∀ f : Filter, parse f.text = .ok f ↔ f.Canonical) ∧
      (∀ text f, parse text = .ok f → f.Canonical ∧ parse f.text = .ok f) ∧
      ∀ steps, (build steps).FlagsAsked ∧
        ((build steps).isEmpty = true ↔
          (build steps).text = [] ∧ (build steps).FlagsNamed) := by
  refine ⟨fun f => ⟨canonical_of_parse, parse_text_of_canonical⟩, ?_, ?_⟩
  · intro text f h
    have hcanonical := canonical_of_parse h
    exact ⟨hcanonical, parse_text_of_canonical hcanonical⟩
  · intro steps
    exact ⟨flagsAsked_build steps, isEmpty_iff (flagsAsked_build steps)⟩

/-- An unknown key, an empty tag, a key that comes twice and a condition that has to fail. -/
def looseText : List Char := "\\colour\\red\\gametype\\,ctf,\\map\\old\\map\\new\\secure\\0".toList

def looseFilter : Filter where
  map := some "new"
  gametype := ["ctf"]
  mask := Flags.single 1

theorem parse_text_iff_canonical_loose :
    parse looseText = .ok looseFilter ∧ looseFilter.Canonical ∧
      parse looseFilter.text = .ok looseFilter ∧ looseFilter.text ≠ looseText := by
  have hread : parse looseText = .ok looseFilter := by decide +kernel
  obtain ⟨hcanonical, hagain⟩ := parse_text_iff_canonical.2.1 looseText looseFilter hread
  exact ⟨hread, hcanonical, hagain, by decide +kernel⟩

/-- A filter that asks about the first condition without a name. -/
def unnamedFilter : Filter := build [.flags (Flags.single Flags.names.length) true]

/-- A condition without a name is not written: the filter does not come back, and it has no text
although it is not empty. -/
theorem parse_text_unnamed :
    unnamedFilter.Separable ∧ unnamedFilter.text = [] ∧ unnamedFilter.isEmpty = false ∧
      parse unnamedFilter.text ≠ .ok unnamedFilter := by
  have hasked : unnamedFilter.FlagsAsked := flagsAsked_build _
  have hseparable : unnamedFilter.Separable := { canonical_empty with flags := hasked }
  exact ⟨hseparable, by decide +kernel, by decide +kernel, by decide +kernel⟩

end Filter

end GameQuery
