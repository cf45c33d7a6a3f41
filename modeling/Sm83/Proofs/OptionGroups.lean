import Sm83.Host.Options
import Sm83.Proofs.Numerals

/-!
# The grammar of the command line

The words of a command line are read from left to right in groups: a flag with its value, a flag
alone, or a path. A command line is accepted if it is made of such groups and one of them, and no
other, is a path. Otherwise the first word that is none of a group decides the error, and whatever
stands behind it makes no difference.

## Main definitions

* `Options.Group`: the words that may stand together, with what they mean
* `Options.spell`: the words of groups
* `Options.SetBy`: the settings that groups make
* `Options.Offends`: where a command line has no further group

## Main results

* `Options.Draft.read_spell`: what groups do to a draft
* `Options.exists_spell`: a command line is made of groups, up to the first offence
* `Options.parse_law`: the accepted command lines and the errors of the others
-/

namespace Sm83

namespace Options

/-! ## Groups -/

/-- The kinds of groups. -/
inductive Kind where
  | load | pc | ticks | zeroed | image
  deriving DecidableEq

/-- Words that stand together on a command line, with what they mean. -/
inductive Group where
  | load (text : String) (addr : UInt16) (h : parseAddress text = .ok addr)
  | pc (text : String) (addr : UInt16) (h : parseAddress text = .ok addr)
  | ticks (text : String) (n : Nat) (h : IsDecimal text n) (hn : n < 2 ^ 64)
  | zeroed
  | image (word : String) (h : ¬ ['-', '-'] <+: word.toList)

namespace Group

/-- The words of a group. -/
def words : Group → List String
  | load text _ _ => ["--load", text]
  | pc text _ _ => ["--pc", text]
  | ticks text _ _ _ => ["--ticks", text]
  | zeroed => ["--zeroed"]
  | image word _ => [word]

def kind : Group → Kind
  | load .. => .load
  | pc .. => .pc
  | ticks .. => .ticks
  | zeroed => .zeroed
  | image .. => .image

/-- The path that a group gives. -/
def image? : Group → Option String
  | image word _ => some word
  | load .. | pc .. | ticks .. | zeroed => none

def load? : Group → Option UInt16
  | load _ addr _ => some addr
  | pc .. | ticks .. | zeroed | image .. => none

def pc? : Group → Option UInt16
  | pc _ addr _ => some addr
  | load .. | ticks .. | zeroed | image .. => none

def ticks? : Group → Option Nat
  | ticks _ n _ _ => some n
  | load .. | pc .. | zeroed | image .. => none

end Group

/-- The words of groups. -/
def spell (groups : List Group) : List String := groups.flatMap Group.words

/-- The paths among groups. -/
def images (groups : List Group) : List String := groups.filterMap Group.image?

@[simp] theorem images_nil : images [] = [] := rfl

theorem images_cons (g : Group) (groups : List Group) :
    images (g :: groups) = g.image?.toList ++ images groups := by
  unfold images
  cases h : g.image? with
  | none => rw [List.filterMap_cons_none h]; rfl
  | some w => rw [List.filterMap_cons_some h]; rfl

theorem spell_cons (g : Group) (groups : List Group) :
    spell (g :: groups) = g.words ++ spell groups := List.flatMap_cons

/-- The settings that groups make: the only path, and the last value for each of the flags. -/
structure SetBy (groups : List Group) (o : Options) : Prop where
  image : images groups = [o.image]
  load : o.load = (groups.filterMap Group.load?).getLastD 0
  pc : o.pc = (groups.filterMap Group.pc?).getLast?
  ticks : o.ticks = (groups.filterMap Group.ticks?).getLastD 1000000
  boot : o.boot = .zeroed ↔ .zeroed ∈ groups

/-- Where a command line has no further group, and why. Only whether there have been paths before
is of importance. -/
inductive Offends (before : List String) : List String → UsageError → Prop
  /-- A flag that takes a value is the last word. -/
  | missingValue (flag : String) (h : flag ∈ ["--load", "--pc", "--ticks"]) :
      Offends before [flag] (.missingValue flag)
  /-- The word behind a flag, whatever it looks like, is not a value. -/
  | badAddress (flag value : String) (rest : List String) (cause : NumeralError)
      (hflag : flag ∈ ["--load", "--pc"]) (h : parseAddress value = .error cause) :
      Offends before (flag :: value :: rest) (.badAddress value cause)
  | badTicks (value : String) (rest : List String) (cause : NumeralError)
      (h : parseTicks value = .error cause) :
      Offends before ("--ticks" :: value :: rest) (.badTicks value cause)
  | unknownOption (word : String) (rest : List String) (h : ['-', '-'] <+: word.toList)
      (hne : word ∉ ["--load", "--pc", "--ticks", "--zeroed"]) :
      Offends before (word :: rest) (.unknownOption word)
  | secondImage (word : String) (rest : List String) (h : ¬ ['-', '-'] <+: word.toList)
      (hbefore : before ≠ []) : Offends before (word :: rest) .secondImage

/-! ## Words -/

theorem isFlag_iff {word : String} : isFlag word = true ↔ ['-', '-'] <+: word.toList := by
  unfold isFlag
  split
  · rename_i rest h
    rw [h]
    exact ⟨fun _ => ⟨rest, rfl⟩, fun _ => rfl⟩
  · rename_i hne
    refine ⟨nofun, ?_⟩
    rintro ⟨rest, h⟩
    exact absurd h.symm (hne rest)

theorem takesValue_iff {word : String} :
    takesValue word = true ↔ word ∈ ["--load", "--pc", "--ticks"] := decide_eq_true_iff

/-- A word that does not look like a flag is none of them. -/
theorem notMem_flags {word : String} (h : ¬ ['-', '-'] <+: word.toList) :
    word ∉ ["--load", "--pc", "--ticks", "--zeroed"] := by
  intro hmem
  simp only [List.mem_cons, List.not_mem_nil, or_false] at hmem
  rcases hmem with rfl | rfl | rfl | rfl <;> exact h (by decide)

theorem takesValue_eq_false {word : String}
    (h : word ∉ ["--load", "--pc", "--ticks", "--zeroed"]) : takesValue word = false := by
  rw [Bool.eq_false_iff, Ne, takesValue_iff]
  exact fun hmem => h (List.mem_append_left ["--zeroed"] hmem)

/-! ## Groups and drafts -/

namespace Draft

/-- The draft after a group. -/
def apply (d : Draft) : Group → Draft
  | .load _ addr _ => { d with load := addr }
  | .pc _ addr _ => { d with pc := some addr }
  | .ticks _ n _ _ => { d with ticks := n }
  | .zeroed => { d with boot := .zeroed }
  | .image word _ => { d with image := some word }

theorem read_valued (d : Draft) {flag : String} (h : takesValue flag = true) (value : String)
    (rest : List String) :
    d.read (flag :: value :: rest) = (d.readValue flag value).bind fun d => d.read rest := by
  simp only [read, h, if_true]

theorem read_word (d : Draft) {word : String} (h : takesValue word = false)
    (rest : List String) :
    d.read (word :: rest) = (d.readWord word).bind fun d => d.read rest := by
  cases rest <;> simp only [read, h, Bool.false_eq_true, if_false]

theorem read_load (d : Draft) (value : String) (rest : List String) :
    d.read ("--load" :: value :: rest) =
      ((readAddress value).map fun load => { d with load }).bind fun d => d.read rest := by
  rw [read_valued d (by decide), readValue, if_pos rfl]

theorem read_pc (d : Draft) (value : String) (rest : List String) :
    d.read ("--pc" :: value :: rest) =
      ((readAddress value).map fun pc => { d with pc := some pc }).bind fun d => d.read rest := by
  rw [read_valued d (by decide), readValue, if_neg (by decide), if_pos rfl]

theorem read_ticks (d : Draft) (value : String) (rest : List String) :
    d.read ("--ticks" :: value :: rest) =
      ((readTicks value).map fun ticks => { d with ticks }).bind fun d => d.read rest := by
  rw [read_valued d (by decide), readValue, if_neg (by decide), if_neg (by decide)]

theorem readWord_of_isFlag (d : Draft) {word : String} (h : ['-', '-'] <+: word.toList)
    (hne : word ≠ "--zeroed") : d.readWord word = .error (.unknownOption word) := by
  rw [readWord, if_neg hne, if_pos (isFlag_iff.2 h)]

theorem readWord_of_not_isFlag (d : Draft) {word : String} (h : ¬ ['-', '-'] <+: word.toList) :
    d.readWord word =
      if d.image.isSome then .error .secondImage else .ok { d with image := some word } := by
  have hne : word ≠ "--zeroed" := fun hw => notMem_flags h (by simp [hw])
  rw [readWord, if_neg hne, if_neg (mt isFlag_iff.1 h)]

/-- **A group is read as what it means**, but a second path is an error. -/
theorem read_words (d : Draft) (g : Group) (rest : List String) :
    d.read (g.words ++ rest) =
      if (d.image.toList ++ g.image?.toList).length ≤ 1 then (d.apply g).read rest
      else .error .secondImage := by
  have hflag : (d.image.toList ++ []).length ≤ 1 := by
    rw [List.append_nil]
    exact Option.length_toList_le
  cases g with
  | load text addr h =>
    refine (d.read_load text rest).trans ?_
    rw [readAddress, h]
    exact (if_pos hflag).symm
  | pc text addr h =>
    refine (d.read_pc text rest).trans ?_
    rw [readAddress, h]
    exact (if_pos hflag).symm
  | ticks text n h hn =>
    refine (d.read_ticks text rest).trans ?_
    rw [readTicks, parseTicks_eq_ok_iff.2 ⟨h, hn⟩]
    exact (if_pos hflag).symm
  | zeroed =>
    have hzeroed : takesValue "--zeroed" = false := by decide
    refine (d.read_word hzeroed rest).trans ?_
    exact (if_pos hflag).symm
  | image word h =>
    refine (d.read_word (takesValue_eq_false (notMem_flags h)) rest).trans ?_
    rw [readWord_of_not_isFlag d h]
    -- Both sides ask whether the draft has a path already.
    cases hd : d.image with
    | none => rfl
    | some _ => rfl

/-- Without a second path, a draft has the path that a group has given. -/
theorem image_apply {d : Draft} {g : Group}
    (h : (d.image.toList ++ g.image?.toList).length ≤ 1) :
    (d.apply g).image.toList = d.image.toList ++ g.image?.toList := by
  cases g with
  | load | pc | ticks | zeroed => exact (List.append_nil _).symm
  | image word _ =>
    have hd : d.image = none := by
      cases hd : d.image with
      | none => rfl
      | some _ =>
        rw [hd] at h
        exact absurd h (by simp [Group.image?])
    rw [hd]
    rfl

/-- **Groups are read as what they mean**, up to a second path. -/
theorem read_spell (d : Draft) (groups : List Group) (rest : List String) :
    d.read (spell groups ++ rest) =
      if (d.image.toList ++ images groups).length ≤ 1 then (groups.foldl apply d).read rest
      else .error .secondImage := by
  induction groups generalizing d with
  | nil =>
    rw [images_nil, List.append_nil, if_pos Option.length_toList_le]
    rfl
  | cons g groups ih =>
    rw [spell_cons, List.append_assoc, read_words, images_cons, ← List.append_assoc]
    by_cases h : (d.image.toList ++ g.image?.toList).length ≤ 1
    · rw [if_pos h, ih, image_apply h]
      rfl
    · -- Once there are two paths, no group takes one of them away.
      rw [if_neg h, if_neg]
      rw [List.length_append]
      omega

/-- An offence is reported. -/
theorem read_of_offends (d : Draft) {rest : List String} {e : UsageError}
    (h : Offends d.image.toList rest e) : d.read rest = .error e := by
  cases h with
  | missingValue flag h => rw [read, if_pos (takesValue_iff.2 h)]
  | badAddress flag value rest cause hflag h =>
    simp only [List.mem_cons, List.not_mem_nil, or_false] at hflag
    rcases hflag with rfl | rfl
    · rw [read_load, readAddress, h]
      rfl
    · rw [read_pc, readAddress, h]
      rfl
  | badTicks value rest cause h =>
    rw [read_ticks, readTicks, h]
    rfl
  | unknownOption word rest h hne =>
    rw [read_word d (takesValue_eq_false hne), readWord_of_isFlag d h fun hw => hne (by simp [hw])]
    rfl
  | secondImage word rest h hbefore =>
    have hd : d.image.isSome = true := by
      cases hd : d.image with
      | none => exact absurd (by rw [hd]; rfl) hbefore
      | some _ => rfl
    rw [read_word d (takesValue_eq_false (notMem_flags h)), readWord_of_not_isFlag d h, if_pos hd]
    rfl

/-- What groups leave in a field of a draft: the last value that they have for it. -/
theorem foldl_apply {β : Type} (field : Draft → β) (value? : Group → Option β)
    (h : ∀ d g, field (d.apply g) = (value? g).getD (field d)) (d : Draft) (groups : List Group) :
    field (groups.foldl apply d) = (groups.filterMap value?).getLastD (field d) := by
  induction groups generalizing d with
  | nil => rfl
  | cons g groups ih =>
    rw [List.foldl_cons, ih, h]
    cases hg : value? g with
    | none => rw [List.filterMap_cons_none hg, Option.getD_none]
    | some v => rw [List.filterMap_cons_some hg, List.getLastD_cons, Option.getD_some]

/-- Without a second path, a draft has the path that groups have given. -/
theorem image_foldl_apply {d : Draft} {groups : List Group}
    (h : (d.image.toList ++ images groups).length ≤ 1) :
    (groups.foldl apply d).image.toList = d.image.toList ++ images groups := by
  induction groups generalizing d with
  | nil => rw [images_nil, List.append_nil, List.foldl_nil]
  | cons g groups ih =>
    rw [images_cons, ← List.append_assoc] at h ⊢
    have hg : (d.image.toList ++ g.image?.toList).length ≤ 1 := by
      rw [List.length_append] at h
      omega
    rw [← image_apply hg] at h ⊢
    exact ih h

theorem boot_foldl_apply (d : Draft) (groups : List Group) :
    (groups.foldl apply d).boot = .zeroed ↔ d.boot = .zeroed ∨ .zeroed ∈ groups := by
  induction groups generalizing d with
  | nil => simp
  | cons g groups ih =>
    rw [List.foldl_cons, ih, List.mem_cons]
    cases g with
    | load | pc | ticks | image => simp [apply]
    | zeroed => simp [apply]

/-- The draft that groups make of an empty one. -/
def of (groups : List Group) : Draft := groups.foldl apply {}

theorem read_spell_of (groups : List Group) (rest : List String) :
    read {} (spell groups ++ rest) =
      if (images groups).length ≤ 1 then (of groups).read rest else .error .secondImage :=
  read_spell {} groups rest

theorem image_of {groups : List Group} (h : (images groups).length ≤ 1) :
    (of groups).image.toList = images groups := image_foldl_apply (d := {}) h

end Draft

/-! ## Command lines made of groups -/

theorem parse_spell {groups : List Group} (h : (images groups).length ≤ 1) :
    parse (spell groups) =
      match (Draft.of groups).image with
      | some image => .ok
        { image, load := (Draft.of groups).load, pc := (Draft.of groups).pc,
          ticks := (Draft.of groups).ticks, boot := (Draft.of groups).boot }
      | none => .error .noImage := by
  have hread := Draft.read_spell_of groups []
  rw [List.append_nil, if_pos h] at hread
  rw [parse, hread]
  rfl

/-- **Groups with one path are settings**, those that the groups make. -/
theorem parse_spell_of_image {groups : List Group} {word : String} (h : images groups = [word]) :
    ∃ o, parse (spell groups) = .ok o ∧ SetBy groups o := by
  have hle : (images groups).length ≤ 1 := by rw [h, List.length_singleton]
  have himage := Draft.image_of hle
  rw [h, Option.toList_eq_singleton_iff] at himage
  have hload := Draft.foldl_apply Draft.load Group.load? (fun _ g => by cases g <;> rfl) {} groups
  have hticks :=
    Draft.foldl_apply Draft.ticks Group.ticks? (fun _ g => by cases g <;> rfl) {} groups
  -- The draft starts without an entry point, so that the last one, if there is any, is its own.
  have hpc := Draft.foldl_apply Draft.pc (fun g => g.pc?.map some)
    (fun _ g => by cases g <;> rfl) {} groups
  rw [← List.map_filterMap, List.getLastD_eq_getLast?, List.getLast?_map] at hpc
  have hlast (o : Option UInt16) : (o.map some).getD none = o := by cases o <;> rfl
  have hboot : (Draft.of groups).boot = .zeroed ↔ .zeroed ∈ groups := by
    rw [Draft.of, Draft.boot_foldl_apply]
    exact or_iff_right nofun
  refine ⟨_, (parse_spell hle).trans (by rw [himage]), ?_⟩
  exact
    { image := h
      load := hload
      pc := hpc.trans (hlast _)
      ticks := hticks
      boot := hboot }

/-- **Groups without a path are an error** once all of them are read. -/
theorem parse_spell_of_no_image {groups : List Group} (h : images groups = []) :
    parse (spell groups) = .error .noImage := by
  have hle : (images groups).length ≤ 1 := by rw [h]; exact Nat.zero_le 1
  have himage := Draft.image_of hle
  rw [h, Option.toList_eq_nil_iff] at himage
  rw [parse_spell hle, himage]

/-- Two paths are one too many, whatever the other groups are. -/
theorem parse_spell_of_images {groups : List Group} (h : 1 < (images groups).length) :
    parse (spell groups) = .error .secondImage := by
  have hread := Draft.read_spell_of groups []
  rw [List.append_nil, if_neg (Nat.not_le.2 h)] at hread
  rw [parse, hread]
  rfl

/-- **An offence behind groups is an error**, whatever stands behind it. -/
theorem parse_of_offends {groups : List Group} {rest : List String} {e : UsageError}
    (hle : (images groups).length ≤ 1) (h : Offends (images groups) rest e) :
    parse (spell groups ++ rest) = .error e := by
  rw [← Draft.image_of hle] at h
  rw [parse, Draft.read_spell_of, if_pos hle, Draft.read_of_offends _ h]
  rfl

theorem SetBy.unique {groups : List Group} {o o' : Options} (h : SetBy groups o)
    (h' : SetBy groups o') : o = o' := by
  have himage : o.image = o'.image := List.singleton_inj.1 (h.image.symm.trans h'.image)
  have hboot : o.boot = o'.boot := by
    have hiff := h.boot.trans h'.boot.symm
    cases hb : o.boot <;> cases hb' : o'.boot <;> simp_all
  obtain ⟨image, load, pc, ticks, boot⟩ := o
  obtain rfl : image = _ := himage
  obtain rfl : load = _ := h.load.trans h'.load.symm
  obtain rfl : pc = _ := h.pc.trans h'.pc.symm
  obtain rfl : ticks = _ := h.ticks.trans h'.ticks.symm
  obtain rfl : boot = _ := hboot
  rfl

/-! ## Taking a command line apart -/

/-- What stands first on a command line is a group or an offence. -/
theorem exists_words_or_offends {before : List String} (hle : before.length ≤ 1) (word : String)
    (rest : List String) :
    (∃ (g : Group) (tail : List String), word :: rest = g.words ++ tail ∧
      (before ++ g.image?.toList).length ≤ 1) ∨ ∃ e, Offends before (word :: rest) e := by
  have hflag : (before ++ []).length ≤ 1 := by rwa [List.append_nil]
  by_cases hvalue : word ∈ ["--load", "--pc", "--ticks"]
  · -- The flag is judged by the word behind it, and that word by itself, whatever it looks like.
    cases rest with
    | nil => exact .inr ⟨_, .missingValue word hvalue⟩
    | cons value tail =>
      simp only [List.mem_cons, List.not_mem_nil, or_false] at hvalue
      rcases hvalue with rfl | rfl | rfl
      · cases h : parseAddress value with
        | error cause => exact .inr ⟨_, .badAddress _ value tail cause (by simp) h⟩
        | ok addr => exact .inl ⟨.load value addr h, tail, rfl, hflag⟩
      · cases h : parseAddress value with
        | error cause => exact .inr ⟨_, .badAddress _ value tail cause (by simp) h⟩
        | ok addr => exact .inl ⟨.pc value addr h, tail, rfl, hflag⟩
      · cases h : parseTicks value with
        | error cause => exact .inr ⟨_, .badTicks value tail cause h⟩
        | ok n =>
          obtain ⟨hdecimal, hn⟩ := parseTicks_eq_ok_iff.1 h
          exact .inl ⟨.ticks value n hdecimal hn, tail, rfl, hflag⟩
  · by_cases hzeroed : word = "--zeroed"
    · subst hzeroed
      exact .inl ⟨.zeroed, rest, rfl, hflag⟩
    · by_cases hdashes : ['-', '-'] <+: word.toList
      · refine .inr ⟨_, .unknownOption word rest hdashes ?_⟩
        intro hmem
        have hsplit : word ∈ ["--load", "--pc", "--ticks"] ++ ["--zeroed"] := hmem
        rcases List.mem_append.1 hsplit with h | h
        · exact hvalue h
        · exact hzeroed (List.mem_singleton.1 h)
      · cases before with
        | nil => exact .inl ⟨.image word hdashes, rest, rfl, Nat.le_refl 1⟩
        | cons path _ => exact .inr ⟨_, .secondImage word rest hdashes (List.cons_ne_nil _ _)⟩

/-- **A command line is made of groups, up to the first offence.** -/
theorem exists_spell {before : List String} (hle : before.length ≤ 1) (words : List String) :
    ∃ (groups : List Group) (rest : List String), words = spell groups ++ rest ∧
      (before ++ images groups).length ≤ 1 ∧
      (rest = [] ∨ ∃ e, Offends (before ++ images groups) rest e) := by
  -- A group takes one word or two, so the induction is on the number of words.
  induction hn : words.length using Nat.strong_induction_on generalizing words before with
  | _ n ih =>
    cases words with
    | nil => exact ⟨[], [], rfl, by rwa [images_nil, List.append_nil], .inl rfl⟩
    | cons word rest =>
      rcases exists_words_or_offends hle word rest with ⟨g, tail, hwords, hg⟩ | ⟨e, he⟩
      · have hlt : tail.length < n := by
          have hpos : 0 < g.words.length := by cases g <;> exact Nat.succ_pos _
          rw [← hn, hwords, List.length_append]
          omega
        obtain ⟨groups, rest', rfl, himages, hrest⟩ := ih _ hlt hg tail rfl
        refine ⟨g :: groups, rest', ?_, ?_, ?_⟩
        · rw [hwords, spell_cons, List.append_assoc]
        · rwa [images_cons, ← List.append_assoc]
        · rwa [images_cons, ← List.append_assoc]
      · refine ⟨[], word :: rest, rfl, ?_, .inr ⟨e, ?_⟩⟩
        · rwa [images_nil, List.append_nil]
        · rwa [images_nil, List.append_nil]

/-- The kind of the group that a word begins. -/
def Kind.ofWord (word : String) : Kind :=
  if word = "--load" then .load
  else if word = "--pc" then .pc
  else if word = "--ticks" then .ticks
  else if word = "--zeroed" then .zeroed
  else .image

theorem Group.kind_eq (g : Group) (tail : List String) :
    (g.words ++ tail).head?.map Kind.ofWord = some g.kind := by
  cases g with
  | load | pc | ticks | zeroed => rfl
  | image word h =>
    have hne := notMem_flags h
    simp only [List.mem_cons, List.not_mem_nil, or_false, not_or] at hne
    obtain ⟨hload, hpc, hticks, hzeroed⟩ := hne
    show some (Kind.ofWord word) = _
    rw [Kind.ofWord, if_neg hload, if_neg hpc, if_neg hticks, if_neg hzeroed]
    rfl

/-- The words of a command line decide the first of its groups. -/
theorem Group.eq_of_words_append {g g' : Group} {tail tail' : List String}
    (h : g.words ++ tail = g'.words ++ tail') : g = g' ∧ tail = tail' := by
  have hkind : g.kind = g'.kind := by
    rw [← Option.some_inj, ← g.kind_eq tail, ← g'.kind_eq tail', h]
  cases g with
  | load text addr haddr =>
    cases g' with
    | load text' addr' haddr' =>
      obtain ⟨rfl, rfl⟩ : text = text' ∧ tail = tail' := by simpa [words] using h
      obtain rfl : addr = addr' := Except.ok.inj (haddr.symm.trans haddr')
      exact ⟨rfl, rfl⟩
    | pc | ticks | zeroed | image => cases hkind
  | pc text addr haddr =>
    cases g' with
    | pc text' addr' haddr' =>
      obtain ⟨rfl, rfl⟩ : text = text' ∧ tail = tail' := by simpa [words] using h
      obtain rfl : addr = addr' := Except.ok.inj (haddr.symm.trans haddr')
      exact ⟨rfl, rfl⟩
    | load | ticks | zeroed | image => cases hkind
  | ticks text n hdecimal hn =>
    cases g' with
    | ticks text' n' hdecimal' hn' =>
      obtain ⟨rfl, rfl⟩ : text = text' ∧ tail = tail' := by simpa [words] using h
      have hread := parseTicks_eq_ok_iff.2 ⟨hdecimal, hn⟩
      have hread' := parseTicks_eq_ok_iff.2 ⟨hdecimal', hn'⟩
      obtain rfl : n = n' := Except.ok.inj (hread.symm.trans hread')
      exact ⟨rfl, rfl⟩
    | load | pc | zeroed | image => cases hkind
  | zeroed =>
    cases g' with
    | zeroed => exact ⟨rfl, List.tail_eq_of_cons_eq h⟩
    | load | pc | ticks | image => cases hkind
  | image word hw =>
    cases g' with
    | image word' hw' =>
      obtain ⟨rfl, rfl⟩ : word = word' ∧ tail = tail' := by simpa [words] using h
      exact ⟨rfl, rfl⟩
    | load | pc | ticks | zeroed => cases hkind

theorem spell_injective : Function.Injective spell := by
  intro gs hs h
  induction gs generalizing hs with
  | nil =>
    cases hs with
    | nil => rfl
    | cons g hs =>
      rw [spell_cons] at h
      cases g <;> cases h
  | cons g gs ih =>
    cases hs with
    | nil =>
      rw [spell_cons] at h
      cases g <;> cases h
    | cons g' hs =>
      rw [spell_cons, spell_cons] at h
      obtain ⟨rfl, htail⟩ := Group.eq_of_words_append h
      rw [ih htail]

/-! ## The law of the command line -/

/-- Groups of one kind decide what groups give of that kind. -/
theorem filterMap_eq_of_filter_kind {β : Type} {value? : Group → Option β} {k : Kind}
    (hk : ∀ {g}, (value? g).isSome → g.kind = k) {gs hs : List Group}
    (h : gs.filter (·.kind = k) = hs.filter (·.kind = k)) :
    gs.filterMap value? = hs.filterMap value? := by
  have hkind (groups : List Group) :
      (groups.filter (·.kind = k)).filterMap value? = groups.filterMap value? := by
    rw [List.filterMap_filter]
    congr 1
    funext g
    cases hv : value? g with
    | none => exact ite_self none
    | some v => rw [if_pos (decide_eq_true (hk (by rw [hv]; rfl)))]
  rw [← hkind gs, ← hkind hs, h]

/-- What groups give of each kind does not depend on the order of the kinds. -/
theorem filterMap_eq_of_forall_kind {gs hs : List Group}
    (h : ∀ k, gs.filter (·.kind = k) = hs.filter (·.kind = k)) :
    images gs = images hs ∧ gs.filterMap Group.load? = hs.filterMap Group.load? ∧
      gs.filterMap Group.pc? = hs.filterMap Group.pc? ∧
      gs.filterMap Group.ticks? = hs.filterMap Group.ticks? := by
  refine ⟨filterMap_eq_of_filter_kind ?_ (h .image), filterMap_eq_of_filter_kind ?_ (h .load),
    filterMap_eq_of_filter_kind ?_ (h .pc), filterMap_eq_of_filter_kind ?_ (h .ticks)⟩
  all_goals
    intro g hg
    cases g <;> first | rfl | cases hg

theorem SetBy.congr {gs hs : List Group} {o : Options}
    (h : ∀ k, gs.filter (·.kind = k) = hs.filter (·.kind = k)) (ho : SetBy gs o) :
    SetBy hs o := by
  obtain ⟨himage, hload, hpc, hticks⟩ := filterMap_eq_of_forall_kind h
  have hzeroed (groups : List Group) : .zeroed ∈ groups ↔
      .zeroed ∈ groups.filter (·.kind = .zeroed) := by
    rw [List.mem_filter]
    exact (and_iff_left (by rfl)).symm
  exact
    { image := himage.symm.trans ho.image
      load := hload ▸ ho.load
      pc := hpc ▸ ho.pc
      ticks := hticks ▸ ho.ticks
      boot := by rw [ho.boot, hzeroed gs, hzeroed hs, h .zeroed] }

/-- **The law of the command line.** A command line is accepted if it is made of groups, and of one
path among them; they can be told apart in one way only, and make the settings. It is refused with
the error of the first offence, whatever stands behind it; that there is no path is an error of a
command line that is made of groups. Groups of different kinds may change places. -/
theorem parse_law :
    (∀ words o, parse words = .ok o ↔ ∃ groups, words = spell groups ∧ SetBy groups o) ∧
    (∀ words e, parse words = .error e ↔
      (∃ groups rest, words = spell groups ++ rest ∧ (images groups).length ≤ 1 ∧
        Offends (images groups) rest e) ∨
      e = .noImage ∧ ∃ groups, words = spell groups ∧ images groups = []) ∧
    Function.Injective spell ∧
    ∀ gs hs, (∀ k, gs.filter (·.kind = k) = hs.filter (·.kind = k)) →
      parse (spell gs) = parse (spell hs) := by
  have hok {groups : List Group} {o : Options} (h : SetBy groups o) :
      parse (spell groups) = .ok o := by
    obtain ⟨o', ho', hset⟩ := parse_spell_of_image h.image
    rw [ho', hset.unique h]
  -- A command line is made of groups up to its first offence, and they decide what becomes of it.
  have hall (words : List String) :
      (∃ groups o, words = spell groups ∧ SetBy groups o) ∨
      (∃ groups rest e, words = spell groups ++ rest ∧ (images groups).length ≤ 1 ∧
        Offends (images groups) rest e) ∨
      ∃ groups, words = spell groups ∧ images groups = [] := by
    have hnone : ([] : List String).length ≤ 1 := Nat.zero_le 1
    obtain ⟨groups, rest, hwords, hle, hrest⟩ := exists_spell hnone words
    rcases hrest with rfl | ⟨e, he⟩
    · rw [List.append_nil] at hwords
      cases himages : images groups with
      | nil => exact .inr (.inr ⟨groups, hwords, himages⟩)
      | cons word more =>
        have hmore : more = [] := by
          rw [List.nil_append, himages, List.length_cons] at hle
          exact List.eq_nil_of_length_eq_zero (by omega)
        obtain ⟨o, -, ho⟩ := parse_spell_of_image (himages.trans (by rw [hmore]))
        exact .inl ⟨groups, o, hwords, ho⟩
    · exact .inr (.inl ⟨groups, rest, e, hwords, hle, he⟩)
  refine ⟨?_, ?_, spell_injective, ?_⟩
  · intro words o
    constructor
    · intro h
      rcases hall words with ⟨groups, o', rfl, ho⟩ | ⟨groups, rest, e, rfl, hle, he⟩ |
        ⟨groups, rfl, hnone⟩
      · obtain rfl := Except.ok.inj ((hok ho).symm.trans h)
        exact ⟨groups, rfl, ho⟩
      · exact absurd ((parse_of_offends hle he).symm.trans h) nofun
      · exact absurd ((parse_spell_of_no_image hnone).symm.trans h) nofun
    · rintro ⟨groups, rfl, ho⟩
      exact hok ho
  · intro words e
    constructor
    · intro h
      rcases hall words with ⟨groups, o, rfl, ho⟩ | ⟨groups, rest, e', rfl, hle, he⟩ |
        ⟨groups, rfl, hnone⟩
      · exact absurd ((hok ho).symm.trans h) nofun
      · obtain rfl := Except.error.inj ((parse_of_offends hle he).symm.trans h)
        exact .inl ⟨groups, rest, rfl, hle, he⟩
      · obtain rfl := Except.error.inj ((parse_spell_of_no_image hnone).symm.trans h)
        exact .inr ⟨rfl, groups, rfl, hnone⟩
    · rintro (⟨groups, rest, rfl, hle, he⟩ | ⟨rfl, groups, rfl, hnone⟩)
      · exact parse_of_offends hle he
      · exact parse_spell_of_no_image hnone
  · intro gs hs h
    obtain ⟨himages, -⟩ := filterMap_eq_of_forall_kind h
    rcases hgs : images gs with _ | ⟨word, _ | ⟨word', more⟩⟩
    · rw [parse_spell_of_no_image hgs, parse_spell_of_no_image (himages.symm.trans hgs)]
    · obtain ⟨o, ho, hset⟩ := parse_spell_of_image hgs
      rw [ho, hok (hset.congr h)]
    · have hmany : 1 < (images gs).length := by
        rw [hgs, List.length_cons, List.length_cons]
        omega
      rw [parse_spell_of_images hmany, parse_spell_of_images (himages ▸ hmany)]

/-- A flag may stand before a path or behind it, and takes another flag as its value. -/
theorem parse_law_flags :
    parse ["--zeroed", "rom.gb"] = parse ["rom.gb", "--zeroed"] ∧
      parse ["--load", "--pc", "5", "rom.gb"] =
        .error (.badAddress "--pc" .invalidDigit) := by
  obtain ⟨-, herror, -, hsame⟩ := parse_law
  let path : Group := .image "rom.gb" (by decide)
  constructor
  · refine hsame [.zeroed, path] [path, .zeroed] ?_
    intro k
    cases k <;> rfl
  · refine (herror _ _).2 (.inl ⟨[], _, rfl, Nat.zero_le 1, ?_⟩)
    exact .badAddress "--load" "--pc" _ _ (by decide) (by rfl)

end Options

end Sm83
