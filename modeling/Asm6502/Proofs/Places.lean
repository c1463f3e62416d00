import Asm6502.Files.Tree
import Mathlib.Data.List.Flatten

/-! Where paths lead. A text that leads to a file leads to the same place once it is read as a path,
and a path with another suffix leads elsewhere. On the way to a place everything is there, and no
way goes through a file; so a file that is written changes what stands at its own place and
nothing else. -/
namespace Asm6502

namespace Text

theorem splitOnFrom_eq (c : Char) (done : List Text) (piece t : Text) :
    splitOnFrom c done piece t =
      done.reverse ++ (List.splitOn c t).modifyHead (piece.reverse ++ ·) := by
  induction t generalizing done piece with
  | nil => simp [splitOnFrom]
  | cons d rest ih =>
    rw [splitOnFrom, List.splitOn_cons_eq_if_modifyHead]
    by_cases found : d = c
    · have same : ∀ pieces : List Text, pieces.modifyHead (fun piece => piece) = pieces :=
        congrFun List.modifyHead_id
      simp [found, ih, same]
    · simp [found, ih, Function.comp_def]

theorem splitOn_eq (c : Char) (t : Text) : splitOn c t = List.splitOn c t := by
  rw [splitOn, splitOnFrom_eq]
  exact congrFun List.modifyHead_id _

theorem not_mem_of_mem_splitOn {c : Char} {piece t : Text} (h : piece ∈ List.splitOn c t) :
    c ∉ piece := by
  induction t generalizing piece with
  | nil =>
    rw [List.splitOn_nil, List.mem_singleton] at h
    simp [h]
  | cons d rest ih =>
    obtain ⟨first, others, pieces⟩ := List.exists_cons_of_ne_nil (List.splitOn_ne_nil c rest)
    rw [List.splitOn_cons_eq_if_modifyHead, pieces] at h
    rw [pieces] at ih
    split at h
    · rcases List.mem_cons.mp h with rfl | later
      · exact List.not_mem_nil
      · exact ih later
    · rename_i other
      rcases List.mem_cons.mp h with rfl | later
      · rw [List.mem_cons, not_or]
        exact ⟨fun e => other (by simp [e]), ih List.mem_cons_self⟩
      · exact ih (List.mem_cons_of_mem _ later)

theorem sublist_intercalate {xs ys : List Text} (h : xs.Sublist ys) (separator : Text) :
    (List.intercalate separator xs).Sublist (List.intercalate separator ys) := by
  induction h with
  | slnil => exact .refl _
  | @cons xs ys y h ih =>
    cases ys with
    | nil =>
      rw [List.sublist_nil.mp h]
      exact List.nil_sublist _
    | cons z zs =>
      rw [List.intercalate_cons_cons]
      exact ih.trans (List.sublist_append_right ..)
  | @cons_cons xs ys x h ih =>
    cases xs with
    | nil =>
      cases ys with
      | nil => exact .refl _
      | cons z zs =>
        rw [List.intercalate_cons_cons, List.intercalate_singleton, List.append_assoc]
        exact List.sublist_append_left ..
    | cons w ws =>
      have longer : ys ≠ [] := List.ne_nil_of_mem (h.mem List.mem_cons_self)
      obtain ⟨z, zs, rfl⟩ := List.exists_cons_of_ne_nil longer
      rw [List.intercalate_cons_cons, List.intercalate_cons_cons]
      exact .append (.refl _) ih

end Text

namespace Path

/-- The names in a text: what stands between its slashes and says something. -/
def names (t : Text) : List Text :=
  (Text.splitOn '/' t).filter fun part => part != [] && part != ['.']

theorem parse_eq (t : Text) : parse t = ⟨rootOf t, names t⟩ := rfl

theorem mem_names {t name : Text} (h : name ∈ names t) : name ≠ [] ∧ '/' ∉ name := by
  obtain ⟨piece, kept⟩ := List.mem_filter.mp h
  rw [Text.splitOn_eq] at piece
  simp only [Bool.and_eq_true, bne_iff_ne] at kept
  exact ⟨kept.1, Text.not_mem_of_mem_splitOn piece⟩

theorem joined_names_sublist (t : Text) : (List.intercalate ['/'] (names t)).Sublist t := by
  have kept : (names t).Sublist (List.splitOn '/' t) := by
    rw [← Text.splitOn_eq]
    exact List.filter_sublist
  have whole := Text.sublist_intercalate kept ['/']
  rwa [List.intercalate_splitOn] at whole

/-- What an absolute path can begin with, and nothing. -/
def IsRoot (root : Text) : Prop := root = [] ∨ root = ['/'] ∨ root = ['/', '/']

theorem isRoot_rootOf (t : Text) : IsRoot (rootOf t) := by
  unfold rootOf IsRoot
  split <;> simp

theorem exists_eq_rootOf_append (t : Text) : ∃ rest, t = rootOf t ++ rest := by
  unfold rootOf
  split <;> simp

theorem IsRoot.splitOn_append {root : Text} (h : IsRoot root) (rest : Text) :
    Text.splitOn '/' (root ++ rest) = List.replicate root.length [] ++ Text.splitOn '/' rest := by
  rw [Text.splitOn_eq, Text.splitOn_eq]
  rcases h with rfl | rfl | rfl <;> simp [List.splitOn_cons_eq_if_modifyHead, List.replicate]

theorem IsRoot.names_append {root : Text} (h : IsRoot root) (rest : Text) :
    names (root ++ rest) = names rest := by
  simp [names, h.splitOn_append]

/-- A path of at least one name, all of them in one piece. -/
structure Plain (p : Path) : Prop where
  root : IsRoot p.root
  named : p.parts ≠ []
  names : ∀ name ∈ p.parts, name ≠ [] ∧ '/' ∉ name

theorem Plain.exists_last {p : Path} (plain : p.Plain) :
    ∃ before name, p.parts = before ++ [name] :=
  ⟨_, _, (List.dropLast_concat_getLast plain.named).symm⟩

theorem plain_parse {raw : Text} (named : (parse raw).parts ≠ []) : (parse raw).Plain where
  root := isRoot_rootOf raw
  named := named
  names _ := mem_names

theorem text_eq {p : Path} (named : p.parts ≠ []) :
    p.text = p.root ++ List.intercalate ['/'] p.parts := by
  unfold text
  split
  · contradiction
  · rfl

theorem text_parse_sublist {raw : Text} (named : (parse raw).parts ≠ []) :
    (parse raw).text.Sublist raw := by
  obtain ⟨rest, whole⟩ := exists_eq_rootOf_append raw
  have parts : (parse raw).parts = names rest := by
    rw [parse_eq, ← (isRoot_rootOf raw).names_append rest, ← whole]
  have kept : (rootOf raw ++ List.intercalate ['/'] (names rest)).Sublist (rootOf raw ++ rest) :=
    .append (.refl _) (joined_names_sublist rest)
  rw [text_eq named, parts]
  rwa [← whole] at kept

theorem Plain.splitOn_text {p : Path} (plain : p.Plain) :
    Text.splitOn '/' p.text = List.replicate p.root.length [] ++ p.parts := by
  rw [text_eq plain.named, plain.root.splitOn_append, Text.splitOn_eq,
    List.splitOn_intercalate '/' (fun name h => (plain.names name h).2) plain.named]

theorem Plain.head?_text {p : Path} (plain : p.Plain) :
    p.text.head? = some '/' ↔ p.root ≠ [] := by
  obtain ⟨name, rest, parts⟩ := List.exists_cons_of_ne_nil plain.named
  obtain ⟨nonempty, slashless⟩ := plain.names name (by simp [parts])
  obtain ⟨c, cs, rfl⟩ := List.exists_cons_of_ne_nil nonempty
  have other : c ≠ '/' := fun e => slashless (by simp [e])
  rw [text_eq plain.named, parts, List.intercalate_cons_cons_left]
  rcases plain.root with root | root | root <;> simp [root, other]

theorem head?_eq_slash_iff (raw : Text) : raw.head? = some '/' ↔ rootOf raw ≠ [] := by
  unfold rootOf
  split <;> simp
  rename_i other
  cases raw with
  | nil => simp
  | cons c rest =>
    simp only [List.head?_cons, Option.some.injEq]
    rintro rfl
    exact other rest rfl

theorem withSuffix_eq {p : Path} {before : List Text} {name : Text}
    (parts : p.parts = before ++ [name]) (suffix : Text) :
    p.withSuffix suffix = ⟨p.root, before ++ [stem name ++ suffix]⟩ := by
  simp [withSuffix, parts]

theorem stem_cases (name : Text) :
    stem name = name ∨ stem name ≠ [] ∧ ∃ suffix, name = stem name ++ '.' :: suffix := by
  have whole : name.reverse.takeWhile (· != '.') ++ name.reverse.dropWhile (· != '.') =
      name.reverse := List.takeWhile_append_dropWhile
  unfold stem
  dsimp only
  split
  · rename_i c rest cut
    split
    · exact .inl rfl
    · rw [cut] at whole
      refine .inr ⟨by simp, (name.reverse.takeWhile (· != '.')).reverse, ?_⟩
      simpa using (congrArg List.reverse whole).symm
  · exact .inl rfl

theorem stem_ne_nil {name : Text} (nonempty : name ≠ []) : stem name ≠ [] := by
  rcases stem_cases name with whole | ⟨stemmed, -⟩
  · rwa [whole]
  · exact stemmed

theorem stem_append_suffix {base suffix : Text} (nonempty : base ≠ []) (named : suffix ≠ [])
    (dotless : '.' ∉ suffix) : stem (base ++ '.' :: suffix) = base := by
  have kept : ∀ c ∈ suffix.reverse, (c != '.') = true := by
    intro c h
    simp only [bne_iff_ne]
    rintro rfl
    exact dotless (List.mem_reverse.mp h)
  have backwards : (base ++ '.' :: suffix).reverse = suffix.reverse ++ '.' :: base.reverse := by
    simp
  obtain ⟨c, rest, last⟩ := List.exists_cons_of_ne_nil (List.reverse_ne_nil_iff.mpr nonempty)
  unfold stem
  rw [backwards, List.takeWhile_append_of_pos kept, List.dropWhile_append_of_pos kept]
  rw [List.dropWhile_cons_of_neg (by simp), List.takeWhile_cons_of_neg (by simp), last]
  have ends : ¬ (suffix.reverse ++ []).isEmpty = true := by simpa using named
  refine (if_neg ends).trans ?_
  rw [← last, List.reverse_reverse]

theorem withSuffix_eq_self_iff {p : Path} {before : List Text} {name suffix : Text}
    (parts : p.parts = before ++ [name]) (named : suffix ≠ []) (dotless : '.' ∉ suffix) :
    p.withSuffix ('.' :: suffix) = p ↔ ∃ base, base ≠ [] ∧ name = base ++ '.' :: suffix := by
  have only : p.withSuffix ('.' :: suffix) = p ↔ stem name ++ '.' :: suffix = name := by
    rw [withSuffix_eq parts]
    obtain ⟨root, _⟩ := p
    subst parts
    simp
  rw [only]
  constructor
  · intro same
    have nonempty : name ≠ [] := by
      rw [← same]
      simp
    exact ⟨stem name, stem_ne_nil nonempty, same.symm⟩
  · rintro ⟨base, nonempty, rfl⟩
    rw [stem_append_suffix nonempty named dotless]

theorem Plain.withSuffix {p : Path} {suffix : Text} (plain : p.Plain) (slashless : '/' ∉ suffix) :
    (p.withSuffix suffix).Plain := by
  obtain ⟨before, name, parts⟩ := plain.exists_last
  rw [withSuffix_eq parts]
  refine ⟨plain.root, by simp, ?_⟩
  intro part h
  rcases List.mem_append.mp h with early | last
  · exact plain.names part (by simp [parts, early])
  · cases List.mem_singleton.mp last
    obtain ⟨nonempty, whole⟩ := plain.names name (by simp [parts])
    rcases stem_cases name with same | ⟨stemmed, tail, cut⟩
    · simp [same, nonempty, whole, slashless]
    · have part : '/' ∉ stem name := by
        intro h
        rw [cut] at whole
        exact whole (List.mem_append_left _ h)
      simp [stemmed, part, slashless]

end Path

namespace FileTree

variable {t : FileTree} {place q : List Text}

def enter (place : List Text) (name : Text) : List Text :=
  if name = [] ∨ name = ['.'] then place
  else if name = ['.', '.'] then parent place
  else place ++ [name]

theorem walk_cons_eq_ok_iff {name : Text} {rest : List Text} :
    t.walk place (name :: rest) = .ok q ↔
      t.node? place = some .directory ∧ exceeds nameLimit name = false ∧
        t.walk (enter place name) rest = .ok q := by
  rw [walk]
  unfold enter
  split
  · simp_all
  · simp_all
  · rename_i directory
    have short : exceeds nameLimit [] = false ∧ exceeds nameLimit ['.'] = false ∧
        exceeds nameLimit ['.', '.'] = false := by decide
    split
    · rename_i quiet
      rcases quiet with rfl | rfl <;> simp [directory, short]
    · split
      · rename_i up
        subst up
        simp [directory, short]
      · split <;> simp_all

theorem enter_of_walk {name : Text} (h : t.walk place [name] = .ok q) : q = enter place name :=
  (Except.ok.inj (walk_cons_eq_ok_iff.mp h).2.2).symm

theorem enter_of_long {name : Text} (long : 2 < name.length) :
    enter place name = place ++ [name] := by
  have unlike : ∀ short : Text, short.length ≤ 2 → name ≠ short := by
    rintro short bound rfl
    omega
  rw [enter, if_neg, if_neg (unlike _ (by decide))]
  rintro (e | e)
  · exact unlike _ (by decide) e
  · exact unlike _ (by decide) e

theorem walk_append_eq_ok_iff {names rest : List Text} :
    t.walk place (names ++ rest) = .ok q ↔
      ∃ mid, t.walk place names = .ok mid ∧ t.walk mid rest = .ok q := by
  induction names generalizing place with
  | nil => simp [walk]
  | cons name names ih =>
    rw [List.cons_append, walk_cons_eq_ok_iff, ih]
    constructor
    · rintro ⟨directory, short, mid, first, second⟩
      exact ⟨mid, walk_cons_eq_ok_iff.mpr ⟨directory, short, first⟩, second⟩
    · rintro ⟨mid, first, second⟩
      obtain ⟨directory, short, first⟩ := walk_cons_eq_ok_iff.mp first
      exact ⟨directory, short, mid, first, second⟩

theorem walk_filter {names : List Text} (h : t.walk place names = .ok q) :
    t.walk place (names.filter fun part => part != [] && part != ['.']) = .ok q := by
  induction names generalizing place with
  | nil => exact h
  | cons name rest ih =>
    obtain ⟨directory, short, onward⟩ := walk_cons_eq_ok_iff.mp h
    have rest := ih onward
    by_cases quiet : name = [] ∨ name = ['.']
    · rw [List.filter_cons_of_neg (by rcases quiet with rfl | rfl <;> simp)]
      rwa [enter, if_pos quiet] at rest
    · rw [List.filter_cons_of_pos (by simpa [not_or] using quiet)]
      exact walk_cons_eq_ok_iff.mpr ⟨directory, short, rest⟩

theorem walk_replicate_append_eq_ok_iff {names : List Text} (named : names ≠ []) (n : Nat) :
    t.walk place (List.replicate n [] ++ names) = .ok q ↔ t.walk place names = .ok q := by
  obtain ⟨name, rest, rfl⟩ := List.exists_cons_of_ne_nil named
  have short : exceeds nameLimit [] = false := rfl
  induction n with
  | zero => rfl
  | succ n ih =>
    rw [List.replicate_succ, List.cons_append, walk_cons_eq_ok_iff, enter, if_pos (.inl rfl)]
    simp only [ih, walk_cons_eq_ok_iff, short, true_and, and_self_left]

def start (root : Text) : List Text := if root = [] then [] else [['/']]

theorem locate_eq_ok_iff {path : Text} :
    t.locate path = .ok q ↔
      path ≠ [] ∧ '\x00' ∉ path ∧ exceeds pathLimit path = false ∧
        t.walk (start (Path.rootOf path)) (Text.splitOn '/' path) = .ok q := by
  have origin : (if path.head? = some '/' then [['/']] else []) = start (Path.rootOf path) := by
    have absolute := Path.head?_eq_slash_iff path
    unfold start
    split <;> simp_all
  rw [locate, origin]
  split
  · simp_all
  · split
    · simp_all
    · split <;> simp_all

theorem locate_text_eq_ok_iff {p : Path} (plain : p.Plain) :
    t.locate p.text = .ok q ↔
      '\x00' ∉ p.text ∧ exceeds pathLimit p.text = false ∧
        t.walk (start p.root) p.parts = .ok q := by
  have nonempty : p.text ≠ [] := by
    intro empty
    obtain ⟨name, rest, parts⟩ := List.exists_cons_of_ne_nil plain.named
    have piece : name ∈ Text.splitOn '/' p.text := by
      rw [plain.splitOn_text, parts]
      simp
    rw [empty] at piece
    exact (plain.names name (by simp [parts])).1 (List.mem_singleton.mp piece)
  have origin : start (Path.rootOf p.text) = start p.root := by
    have absolute := (Path.head?_eq_slash_iff p.text).symm.trans plain.head?_text
    unfold start
    split <;> simp_all
  rw [locate_eq_ok_iff, plain.splitOn_text, walk_replicate_append_eq_ok_iff plain.named, origin]
  simp [nonempty]

theorem exceeds_of_sublist {limit : Nat} {short long : Text} (h : short.Sublist long)
    (fits : exceeds limit long = false) : exceeds limit short = false := by
  have fewer := (h.flatMap String.utf8EncodeChar).length_le
  have bound : (Text.Utf8.encode long).length ≤ limit := Nat.not_lt.mp (of_decide_eq_false fits)
  exact decide_eq_false (Nat.not_lt.mpr (Nat.le_trans fewer bound))

/-- A text that leads to a file can be read as a path, which then leads there too. -/
theorem locate_parse {raw : Text} {bytes : List UInt8} (located : t.locate raw = .ok place)
    (holds : t.node? place = some (.file bytes)) :
    (Path.parse raw).Plain ∧ t.locate (Path.parse raw).text = .ok place := by
  obtain ⟨-, textual, short, walked⟩ := locate_eq_ok_iff.mp located
  have led : t.walk (start (Path.rootOf raw)) (Path.parse raw).parts = .ok place :=
    walk_filter walked
  -- Without a name one stays where one starts, which is a directory.
  have named : (Path.parse raw).parts ≠ [] := by
    intro none
    rw [none] at led
    cases led
    obtain ⟨piece, rest, pieces⟩ := List.exists_cons_of_ne_nil (List.splitOn_ne_nil '/' raw)
    rw [Text.splitOn_eq, pieces] at walked
    have directory := (walk_cons_eq_ok_iff.mp walked).1
    rw [holds] at directory
    cases directory
  have plain := Path.plain_parse named
  have kept := Path.text_parse_sublist named
  refine ⟨plain, (locate_text_eq_ok_iff plain).mpr ⟨?_, exceeds_of_sublist kept short, led⟩⟩
  exact fun h => textual (kept.mem h)

/-- Everything on the way to a place is there. -/
def Supported (t : FileTree) (place : List Text) : Prop :=
  ∀ above, above <+: place → above ≠ place → t.node? above ≠ none

theorem parent_cases (place : List Text) :
    (∃ last, place = parent place ++ [last]) ∨ parent place = place ++ [['.', '.']] ∨
      parent place = place := by
  unfold parent
  split
  · rename_i empty
    exact .inr (.inl (by simp [List.reverse_eq_nil_iff.mp empty]))
  · exact .inr (.inl rfl)
  · exact .inr (.inr rfl)
  · rename_i last above _ _ turned
    exact .inl ⟨last, by simpa using congrArg List.reverse turned⟩

theorem Supported.enter (h : t.Supported place) (directory : t.node? place = some .directory)
    (name : Text) : t.Supported (enter place name) := by
  have below : ∀ above, above <+: place → t.node? above ≠ none := by
    intro above early
    by_cases same : above = place
    · simp [same, directory]
    · exact h above early same
  have child : ∀ last, t.Supported (place ++ [last]) := by
    intro last above early other
    rw [List.prefix_concat_iff] at early
    exact below above (early.resolve_left other)
  unfold FileTree.enter
  split
  · exact h
  · split
    · rcases parent_cases place with ⟨last, up⟩ | down | same
      · intro above early _
        exact below above (up ▸ early.trans (List.prefix_append ..))
      · exact down ▸ child _
      · rwa [same]
    · exact child name

theorem supported_of_walk {names : List Text} (h : t.Supported place)
    (walked : t.walk place names = .ok q) : t.Supported q := by
  induction names generalizing place with
  | nil =>
    cases walked
    exact h
  | cons name rest ih =>
    obtain ⟨directory, -, onward⟩ := walk_cons_eq_ok_iff.mp walked
    exact ih (h.enter directory name) onward

theorem supported_start (t : FileTree) (root : Text) : t.Supported (start root) := by
  intro above early other
  have origin : above = [] := by
    by_cases relative : root = []
    · simpa [start, relative] using early
    · rw [start, if_neg relative] at early other
      have ahead : above <+: [] ++ [['/']] := early
      exact List.prefix_nil.mp ((List.prefix_concat_iff.mp ahead).resolve_left other)
  rw [origin, node?]
  split <;> simp [isGround]

theorem supported_of_locate {path : Text} (located : t.locate path = .ok place) :
    t.Supported place :=
  supported_of_walk (supported_start t _) (locate_eq_ok_iff.mp located).2.2.2

def OnWay (t : FileTree) (place : List Text) : Prop :=
  isGround place = true ∨ ∃ n ∈ t.nodes, place <+: n.1

instance (t : FileTree) (place : List Text) : Decidable (t.OnWay place) :=
  inferInstanceAs (Decidable (_ ∨ _))

theorem node?_of_unrecorded (unrecorded : t.nodes.find? (fun n => n.1 == place) = none) :
    t.node? place = if t.OnWay place then some .directory else none := by
  have same : (isGround place || t.nodes.any fun n => place.isPrefixOf n.1) = true ↔
      t.OnWay place := by
    simp [OnWay]
  simp only [node?, unrecorded, same]

theorem node?_put_self (t : FileTree) (place : List Text) (node : Node) :
    (t.put place node).node? place = some node := by
  have removed : (t.nodes.filter fun n => n.1 != place).find? (fun n => n.1 == place) = none := by
    simp
  simp [node?, put, List.find?_append, removed]

theorem find?_put_of_ne {target : List Text} (other : place ≠ target) (node : Node) :
    (t.put target node).nodes.find? (fun n => n.1 == place) =
      t.nodes.find? (fun n => n.1 == place) := by
  have kept : (fun n : List Text × Node => !decide (n.1 = target) && decide (n.1 = place)) =
      fun n => n.1 == place := by
    funext n
    by_cases same : n.1 = place <;> simp [same, other]
  simp [put, List.find?_append, List.find?_filter, kept, Ne.symm other]

theorem onWay_put_iff {target : List Text} (before : place <+: target → t.OnWay place)
    (node : Node) : (t.put target node).OnWay place ↔ t.OnWay place := by
  constructor
  · rintro (ground | ⟨n, stored, early⟩)
    · exact .inl ground
    · rcases List.mem_append.mp stored with old | new
      · exact .inr ⟨n, (List.mem_filter.mp old).1, early⟩
      · cases List.mem_singleton.mp new
        exact before early
  · rintro (ground | ⟨n, stored, early⟩)
    · exact .inl ground
    · by_cases moved : n.1 = target
      · exact .inr ⟨(target, node), by simp [put], moved ▸ early⟩
      · exact .inr ⟨n, by simp [put, stored, moved], early⟩

theorem node?_put_of_ne {target : List Text} (h : t.Supported target) (other : place ≠ target)
    (node : Node) : (t.put target node).node? place = t.node? place := by
  have found := find?_put_of_ne (t := t) other node
  cases recorded : t.nodes.find? (fun n => n.1 == place) with
  | some n => simp [node?, found, recorded]
  | none =>
    -- The new file makes directories of the places above it, which they have been before.
    have before : place <+: target → t.OnWay place := by
      intro early
      have there := h place early other
      rw [node?_of_unrecorded recorded] at there
      exact Decidable.of_not_not fun off => there (if_neg off)
    rw [node?_of_unrecorded recorded, node?_of_unrecorded (found.trans recorded)]
    simp only [onWay_put_iff before]

section Put

variable {target : List Text} {bytes : List UInt8}

/-- No way leads through a file, so a new one is in no one's way. -/
theorem walk_put {names : List Text} (h : t.Supported target)
    (closed : t.node? target ≠ some .directory) (walked : t.walk place names = .ok q) :
    (t.put target (.file bytes)).walk place names = .ok q := by
  induction names generalizing place with
  | nil => exact walked
  | cons name rest ih =>
    obtain ⟨directory, short, onward⟩ := walk_cons_eq_ok_iff.mp walked
    have other : place ≠ target := fun same => closed (same ▸ directory)
    refine walk_cons_eq_ok_iff.mpr ⟨?_, short, ih onward⟩
    rw [node?_put_of_ne h other, directory]

theorem locate_put {path : Text} (h : t.Supported target)
    (closed : t.node? target ≠ some .directory) (located : t.locate path = .ok place) :
    (t.put target (.file bytes)).locate path = .ok place := by
  obtain ⟨nonempty, textual, short, walked⟩ := locate_eq_ok_iff.mp located
  exact locate_eq_ok_iff.mpr ⟨nonempty, textual, short, walk_put h closed walked⟩

theorem write_eq_ok_iff {path : Text} {after : FileTree} :
    t.write path bytes = .ok after ↔
      ∃ place, t.locate path = .ok place ∧ t.node? place ≠ some .directory ∧
        t.keeper place ∉ t.locked ∧ after = t.put place (.file bytes) := by
  unfold write
  split
  · simp_all
  · rename_i place located
    rw [located]
    split
    · rename_i directory
      simp [directory]
    · rename_i other
      split
      · rename_i shut
        simp_all
      · rename_i free
        rw [List.contains_iff_mem] at free
        constructor
        · rintro ⟨⟩
          exact ⟨place, rfl, other, free, rfl⟩
        · rintro ⟨_, ⟨⟩, -, -, rfl⟩
          rfl

theorem read_eq_ok_iff {path : Text} :
    t.read path = .ok bytes ↔
      ∃ place, t.locate path = .ok place ∧ t.node? place = some (.file bytes) := by
  unfold read look
  cases t.locate path with
  | error e => simp
  | ok place =>
    cases node : t.node? place with
    | none => simp [node]
    | some n => cases n <;> simp [node]

theorem read_put_of_ne {path : Text} {kept : List UInt8} (h : t.Supported target)
    (closed : t.node? target ≠ some .directory) (located : t.locate path = .ok place)
    (other : place ≠ target) (holds : t.node? place = some (.file kept)) :
    (t.put target (.file bytes)).read path = .ok kept :=
  read_eq_ok_iff.mpr ⟨place, locate_put h closed located, (node?_put_of_ne h other _).trans holds⟩

end Put

theorem enter_ne_append {name other : Text} (above : other ≠ ['.', '.']) (differs : name ≠ other) :
    enter place name ≠ place ++ [other] := by
  unfold enter
  split
  · simp
  · split
    · rcases parent_cases place with ⟨last, up⟩ | down | same
      · intro same
        have shorter := congrArg List.length up
        have longer := congrArg List.length same
        simp only [List.length_append, List.length_singleton] at shorter longer
        omega
      · simpa [down] using Ne.symm above
      · simp [same]
    · simpa using differs

theorem locate_withSuffix_ne {p : Path} {suffix : Text} {target : List Text} (plain : p.Plain)
    (named : suffix ≠ []) (slashless : '/' ∉ suffix) (located : t.locate p.text = .ok place)
    (beside : t.locate (p.withSuffix ('.' :: suffix)).text = .ok target)
    (differs : p.withSuffix ('.' :: suffix) ≠ p) : place ≠ target := by
  obtain ⟨before, name, parts⟩ := plain.exists_last
  have suffixed : (p.withSuffix ('.' :: suffix)).Plain :=
    plain.withSuffix (by simpa using slashless)
  obtain ⟨-, -, walked⟩ := (locate_text_eq_ok_iff plain).mp located
  obtain ⟨-, -, aside⟩ := (locate_text_eq_ok_iff suffixed).mp beside
  rw [Path.withSuffix_eq parts] at aside differs
  rw [parts] at walked
  -- Both paths go to one directory, and only their last names differ.
  obtain ⟨directory, above, last⟩ := walk_append_eq_ok_iff.mp walked
  obtain ⟨_, above', last'⟩ := walk_append_eq_ok_iff.mp aside
  cases above.symm.trans above'
  have long : 2 < (Path.stem name ++ '.' :: suffix).length := by
    have stem := List.length_pos_iff.mpr (Path.stem_ne_nil (plain.names name (by simp [parts])).1)
    have more := List.length_pos_iff.mpr named
    simp only [List.length_append, List.length_cons]
    omega
  rw [enter_of_walk last, enter_of_walk last', enter_of_long long]
  apply enter_ne_append
  · intro up
    simp [up] at long
  · intro same
    apply differs
    obtain ⟨root, _⟩ := p
    subst parts
    simp [← same]

end FileTree
end Asm6502
