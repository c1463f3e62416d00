import Asm6502.Command.Disassemble
import Asm6502.Proofs.Annotation
import Asm6502.Proofs.FirstWins
import Asm6502.Proofs.Reachable
import Asm6502.Proofs.Verdict
import Mathlib.Data.List.Nodup

/-! Labels of a source and labels given by hand. Where several names have one address, the listing
shows the one that was first named last. A label by hand should go before one of the source, and a
later one before an earlier one; so it does for a name that is new, while a name that is given
again keeps its early place and can lose to one that came in between. -/
namespace Asm6502

section Order

variable {α : Type} [BEq α] [LawfulBEq α] [DecidableEq α]

theorem nodup_eraseDups (xs : List α) : xs.eraseDups.Nodup := by
  induction xs using List.reverseRecOn with
  | nil => simp
  | append_singleton xs x ih =>
    rw [eraseDups_concat]
    split
    case isTrue => exact ih
    case isFalse absent =>
      rw [List.nodup_append]
      refine ⟨ih, List.nodup_singleton x, ?_⟩
      rintro y member z last rfl
      exact absent (List.mem_singleton.mp last ▸ List.mem_eraseDups.mp member)

theorem eraseDups_of_nodup {xs : List α} (h : xs.Nodup) : xs.eraseDups = xs := by
  induction xs using List.reverseRecOn with
  | nil => rfl
  | append_singleton xs x ih =>
    obtain ⟨distinct, -, apart⟩ := List.nodup_append.mp h
    have absent : x ∉ xs := fun member => apart x member x (List.mem_singleton_self x) rfl
    rw [eraseDups_concat, if_neg absent, ih distinct]

theorem eraseDups_append_eraseDups (xs ys : List α) :
    (xs ++ ys.eraseDups).eraseDups = (xs ++ ys).eraseDups := by
  induction ys using List.reverseRecOn with
  | nil => simp
  | append_singleton ys y ih =>
    rw [eraseDups_concat, ← List.append_assoc xs ys, eraseDups_concat (xs ++ ys)]
    by_cases member : y ∈ ys
    · rw [if_pos member, ih, if_pos (List.mem_append_right xs member)]
    · rw [if_neg member, ← List.append_assoc, eraseDups_concat, ih]
      simp

/-- The last of the items with a property is the one whose first place is the last. -/
theorem getLast?_filter_eraseDups {p : α → Bool} {xs : List α} {x : α} :
    (xs.eraseDups.filter p).getLast? = some x ↔
      (x ∈ xs ∧ p x = true) ∧ ∀ y ∈ xs, p y = true → xs.idxOf y ≤ xs.idxOf x := by
  induction xs using List.reverseRecOn with
  | nil => simp
  | append_singleton xs z ih =>
    have place : ∀ y ∈ xs, (xs ++ [z]).idxOf y = xs.idxOf y :=
      fun y member => List.idxOf_append_of_mem member
    by_cases fresh : z ∉ xs ∧ p z = true
    · have behind : (xs ++ [z]).idxOf z = xs.length := by
        simp [List.idxOf_append_of_notMem fresh.1]
      have last : ((xs ++ [z]).eraseDups.filter p).getLast? = some z := by
        simp [eraseDups_concat, fresh.1, fresh.2]
      rw [last]
      constructor
      · rintro ⟨⟩
        refine ⟨⟨by simp, fresh.2⟩, fun y member _ => ?_⟩
        have bound := List.idxOf_lt_length_of_mem member
        rw [List.length_append, List.length_singleton] at bound
        omega
      · rintro ⟨⟨member, -⟩, latest⟩
        have bound := latest z (by simp) fresh.2
        rcases List.mem_append.mp member with earlier | same
        · have inside := List.idxOf_lt_length_of_mem earlier
          rw [behind, place x earlier] at bound
          omega
        · rw [List.mem_singleton.mp same]
    · -- Nothing new with the property comes in, so neither side changes.
      have kept : (xs ++ [z]).eraseDups.filter p = xs.eraseDups.filter p := by
        rw [eraseDups_concat]
        split
        case isTrue => rfl
        case isFalse absent =>
          have lacks : ¬ p z = true := fun has => fresh ⟨absent, has⟩
          simp [lacks]
      have same : ∀ y, p y = true → (y ∈ xs ++ [z] ↔ y ∈ xs) := by
        intro y has
        simp only [List.mem_append, List.mem_singleton, or_iff_left_iff_imp]
        rintro rfl
        by_contra absent
        exact fresh ⟨absent, has⟩
      rw [kept, ih]
      constructor
      · rintro ⟨⟨inside, has⟩, last⟩
        refine ⟨⟨(same x has).mpr inside, has⟩, fun y member hy => ?_⟩
        have earlier := (same y hy).mp member
        rw [place y earlier, place x inside]
        exact last y earlier hy
      · rintro ⟨⟨member, has⟩, last⟩
        have inside := (same x has).mp member
        refine ⟨⟨inside, has⟩, fun y earlier hy => ?_⟩
        rw [← place y earlier, ← place x inside]
        exact last y ((same y hy).mpr earlier) hy

end Order

namespace Listing.Names

def latest? (given : Names) (name : Text) : Option Int :=
  ((given.filter fun n => n.1 == name).getLast?).map Prod.snd

section Latest

variable {given : Names} {name : Text}

theorem latest?_append (xs ys : Names) (name : Text) :
    latest? (xs ++ ys) name = (latest? ys name).or (latest? xs name) := by
  simp only [latest?, List.filter_append, List.getLast?_append, Option.map_or]

theorem latest?_singleton (n : Text × Int) (name : Text) :
    latest? [n] name = if n.1 = name then some n.2 else none := by
  by_cases same : n.1 = name <;> simp [latest?, same]

theorem latest?_cons (n : Text × Int) (rest : Names) (name : Text) :
    latest? (n :: rest) name = (latest? rest name).or (if n.1 = name then some n.2 else none) := by
  rw [← List.singleton_append, latest?_append, latest?_singleton]

theorem latest?_eq_none_iff : latest? given name = none ↔ name ∉ given.map Prod.fst := by
  simp only [latest?, Option.map_eq_none_iff, List.getLast?_eq_none_iff, List.filter_eq_nil_iff,
    List.mem_map, not_exists, not_and, beq_iff_eq]

theorem exists_latest (h : name ∈ given.map Prod.fst) :
    ∃ address, latest? given name = some address :=
  Option.ne_none_iff_exists'.mp fun none => latest?_eq_none_iff.mp none h

theorem mem_of_latest? {address : Int} (h : latest? given name = some address) :
    (name, address) ∈ given := by
  obtain ⟨⟨n, a⟩, last, rfl⟩ := Option.map_eq_some_iff.mp h
  have member := List.mem_filter.mp (List.mem_of_getLast? last)
  have same : n = name := by simpa using member.2
  exact same ▸ member.1

theorem latest?_of_mem (distinct : (given.map Prod.fst).Nodup) {n : Text × Int} (h : n ∈ given) :
    latest? given n.1 = some n.2 := by
  cases found : latest? given n.1 with
  | none => exact absurd (List.mem_map_of_mem h) (latest?_eq_none_iff.mp found)
  | some address =>
    have same : (n.1, address) = n :=
      List.inj_on_of_nodup_map distinct (mem_of_latest? found) h rfl
    rw [← same]

theorem any_name_iff (names : Names) (name : Text) :
    (names.any fun n => n.1 == name) = true ↔ name ∈ names.map Prod.fst := by
  simp only [List.any_eq_true, List.mem_map, beq_iff_eq]

theorem keys_set (names : Names) (name : Text) (address : Int) :
    (names.set name address).map Prod.fst =
      if name ∈ names.map Prod.fst then names.map Prod.fst else names.map Prod.fst ++ [name] := by
  unfold set
  by_cases member : name ∈ names.map Prod.fst
  · rw [if_pos ((any_name_iff names name).mpr member), if_pos member, List.map_map]
    apply List.map_congr_left
    intro n _
    by_cases same : n.1 = name <;> simp [same]
  · rw [if_neg (mt (any_name_iff names name).mp member), if_neg member]
    simp

theorem latest?_replaced (names : Names) (name other : Text) (address : Int) :
    latest? (names.map fun n => if n.1 == name then (name, address) else n) other =
      (latest? names other).map fun a => if name = other then address else a := by
  induction names with
  | nil => rfl
  | cons n rest ih =>
    rw [List.map_cons, latest?_cons, latest?_cons, ih, Option.map_or]
    by_cases renamed : n.1 = name
    · by_cases same : name = other <;> simp [renamed, same]
    · have kept : (if n.1 == name then (name, address) else n) = n :=
        if_neg (by simpa using renamed)
      rw [kept]
      by_cases same : name = other
      · have differs : n.1 ≠ other := fun e => renamed (e.trans same.symm)
        simp [differs]
      · simp [same]

theorem latest?_set (names : Names) (name other : Text) (address : Int) :
    latest? (names.set name address) other =
      if name = other then some address else latest? names other := by
  unfold set
  by_cases member : name ∈ names.map Prod.fst
  · rw [if_pos ((any_name_iff names name).mpr member), latest?_replaced]
    by_cases same : name = other
    · subst same
      obtain ⟨a, found⟩ := exists_latest member
      simp [found]
    · simp [same]
  · rw [if_neg (mt (any_name_iff names name).mp member), latest?_append, latest?_singleton]
    split <;> simp

theorem ofPairs_concat (pairs : Names) (n : Text × Int) :
    ofPairs (pairs ++ [n]) = (ofPairs pairs).set n.1 n.2 := by
  simp [ofPairs, update]

theorem keys_ofPairs (pairs : Names) :
    (ofPairs pairs).map Prod.fst = (pairs.map Prod.fst).eraseDups := by
  induction pairs using List.reverseRecOn with
  | nil => rfl
  | append_singleton pairs n ih =>
    rw [ofPairs_concat, keys_set, ih, List.map_append, List.map_singleton, eraseDups_concat]
    simp only [List.mem_eraseDups]

theorem latest?_ofPairs (pairs : Names) (name : Text) :
    latest? (ofPairs pairs) name = latest? pairs name := by
  induction pairs using List.reverseRecOn with
  | nil => rfl
  | append_singleton pairs n ih =>
    rw [ofPairs_concat, latest?_set, ih, latest?_append, latest?_singleton]
    split <;> simp

end Latest

def InRange (given : Names) : Prop := ∀ n ∈ given, 0 ≤ n.2 ∧ n.2 < 65536

theorem nameAt_of_distinct {names : Names} (distinct : (names.map Prod.fst).Nodup)
    (range : names.InRange) (address : Int) :
    nameAt names address =
      ((names.map Prod.fst).filter fun n => latest? names n = some address).getLast? := by
  have same : names.filter (fun l => decide (l.2 % 65536 = address)) =
      names.filter ((fun n => decide (latest? names n = some address)) ∘ Prod.fst) := by
    apply List.filter_congr
    intro l member
    have bounds := range l member
    simp [latest?_of_mem distinct member, Int.emod_eq_of_lt bounds.1 bounds.2]
  rw [nameAt_eq, same, List.filter_map, List.getLast?_map]

theorem update_ofPairs (source given : Names) :
    (ofPairs source).update given = ofPairs (source ++ given) := by
  simp [ofPairs, update]

theorem InRange.ofPairs {pairs : Names} (range : pairs.InRange) : (ofPairs pairs).InRange := by
  intro n member
  have distinct : ((Names.ofPairs pairs).map Prod.fst).Nodup := by
    rw [keys_ofPairs]
    exact nodup_eraseDups _
  have found := latest?_of_mem distinct member
  rw [latest?_ofPairs] at found
  exact range _ (mem_of_latest? found)

/-- Labels of the source and labels given by hand count in the order in which each was first named,
with the address that it was given last. -/
theorem nameAt_allLabels {source pairs : Names} (inSource : source.InRange)
    (byHand : pairs.InRange) (address : Int) :
    nameAt (Command.Disassemble.allLabels source (ofPairs pairs)) address =
      (((source ++ pairs).map Prod.fst).eraseDups.filter fun n =>
        latest? (source ++ pairs) n = some address).getLast? := by
  have range : (source ++ ofPairs pairs).InRange := by
    intro n member
    rcases List.mem_append.mp member with member | member
    · exact inSource n member
    · exact byHand.ofPairs n member
  have order : (ofPairs (source ++ ofPairs pairs)).map Prod.fst =
      ((source ++ pairs).map Prod.fst).eraseDups := by
    rw [keys_ofPairs, List.map_append, keys_ofPairs, eraseDups_append_eraseDups, List.map_append]
  have addresses : ∀ n, latest? (ofPairs (source ++ ofPairs pairs)) n =
      latest? (source ++ pairs) n := by
    intro n
    rw [latest?_ofPairs, latest?_append, latest?_ofPairs, ← latest?_append]
  have distinct : ((ofPairs (source ++ ofPairs pairs)).map Prod.fst).Nodup :=
    order ▸ nodup_eraseDups _
  rw [Command.Disassemble.allLabels, update_ofPairs, nameAt_of_distinct distinct range.ofPairs,
    order]
  simp only [addresses]

/-- The options whose name no later option gives another address. -/
def standing : Names → Names
  | [] => []
  | n :: rest =>
    if rest.any fun m => m.1 == n.1 && m.2 != n.2 then standing rest else n :: standing rest

def lastName? (p : Text × Int → Bool) (names : Names) : Option Text :=
  ((names.filter p).getLast?).map Prod.fst

/-- The name in the last option for an address that stands. -/
def byHand? (pairs : Names) (address : Int) : Option Text :=
  lastName? (fun n => n.2 == address) (standing pairs)

/-- The last label of the source at an address whose name is not given by hand. -/
def bySource? (source pairs : Names) (address : Int) : Option Text :=
  lastName? (fun n => n.2 == address && !(pairs.map Prod.fst).contains n.1) source

/-- Labels given by hand go before those of the source, and later ones before earlier ones. -/
def preferred? (source pairs : Names) (address : Int) : Option Text :=
  (byHand? pairs address).or (bySource? source pairs address)

theorem exists_of_lastName? {p : Text × Int → Bool} {names : Names} {name : Text}
    (h : lastName? p names = some name) :
    ∃ address, (name, address) ∈ names ∧ p (name, address) := by
  obtain ⟨⟨n, address⟩, last, rfl⟩ := Option.map_eq_some_iff.mp h
  exact ⟨address, List.mem_filter.mp (List.mem_of_getLast? last)⟩

theorem not_of_lastName?_eq_none {p : Text × Int → Bool} {names : Names}
    (h : lastName? p names = none) : ∀ n ∈ names, ¬ p n := by
  simpa [lastName?] using h

theorem mem_standing_iff {pairs : Names} {name : Text} {address : Int} :
    (name, address) ∈ standing pairs ↔ latest? pairs name = some address := by
  induction pairs with
  | nil => simp [standing, latest?]
  | cons n rest ih =>
    rw [standing, latest?_cons]
    by_cases overruled : (rest.any fun m => m.1 == n.1 && m.2 != n.2) = true
    · -- The name comes again, so what follows decides about it.
      rw [if_pos overruled, ih]
      by_cases same : n.1 = name
      · obtain ⟨m, member, other⟩ := List.any_eq_true.mp overruled
        have named : m.1 = name := by
          simp only [Bool.and_eq_true, beq_iff_eq] at other
          exact other.1.trans same
        have known : name ∈ rest.map Prod.fst := named ▸ List.mem_map_of_mem member
        obtain ⟨a, found⟩ := exists_latest known
        rw [found, Option.some_or]
      · simp [same]
    · -- If the name comes again it is with the same address.
      rw [if_neg overruled, List.mem_cons, ih]
      have agree : ∀ a, (n.1, a) ∈ rest → a = n.2 := by
        intro a member
        by_contra differs
        exact overruled (List.any_eq_true.mpr ⟨_, member, by simpa using differs⟩)
      obtain ⟨first, a⟩ := n
      by_cases same : first = name
      · subst same
        cases found : latest? rest first with
        | none => simp [eq_comm]
        | some b =>
          cases agree b (mem_of_latest? found)
          simp [eq_comm]
      · simp [same, Ne.symm same]

section Preferred

variable {source pairs : Names} {address : Int} {name : Text}

theorem latest?_of_byHand? (h : byHand? pairs address = some name) :
    latest? pairs name = some address := by
  obtain ⟨a, member, here⟩ := exists_of_lastName? h
  rw [mem_standing_iff.mp member]
  simpa using here

theorem latest?_of_bySource? (distinct : (source.map Prod.fst).Nodup)
    (h : bySource? source pairs address = some name) :
    latest? source name = some address ∧ latest? pairs name = none := by
  obtain ⟨a, member, here⟩ := exists_of_lastName? h
  simp only [Bool.and_eq_true, beq_iff_eq, Bool.not_eq_true', List.contains_eq_mem,
    decide_eq_false_iff_not] at here
  exact ⟨(latest?_of_mem distinct member).trans (congrArg some here.1),
    latest?_eq_none_iff.mpr here.2⟩

theorem latest?_of_preferred? (distinct : (source.map Prod.fst).Nodup)
    (h : preferred? source pairs address = some name) :
    latest? (source ++ pairs) name = some address := by
  rw [latest?_append]
  rcases Option.or_eq_some_iff.mp h with given | ⟨-, defined⟩
  · rw [latest?_of_byHand? given, Option.some_or]
  · obtain ⟨found, untouched⟩ := latest?_of_bySource? distinct defined
    rw [untouched, Option.none_or, found]

theorem latest?_ne_of_not_preferred (h : preferred? source pairs address = none) (name : Text) :
    latest? (source ++ pairs) name ≠ some address := by
  obtain ⟨noneGiven, noneDefined⟩ := Option.or_eq_none_iff.mp h
  rw [latest?_append]
  intro found
  rcases Option.or_eq_some_iff.mp found with given | ⟨untouched, defined⟩
  · exact not_of_lastName?_eq_none noneGiven _ (mem_standing_iff.mpr given) (by simp)
  · apply not_of_lastName?_eq_none noneDefined _ (mem_of_latest? defined)
    simpa using latest?_eq_none_iff.mp untouched

theorem nameAt_eq_preferred_iff (distinct : (source.map Prod.fst).Nodup)
    (inSource : source.InRange) (byHand : pairs.InRange) (address : Int) :
    let order := (source ++ pairs).map Prod.fst
    nameAt (Command.Disassemble.allLabels source (ofPairs pairs)) address =
        preferred? source pairs address ↔
      ∀ name, preferred? source pairs address = some name →
        ∀ other, latest? (source ++ pairs) other = some address →
          order.idxOf other ≤ order.idxOf name := by
  intro order
  have known : ∀ n, latest? (source ++ pairs) n = some address → n ∈ order :=
    fun n found => List.mem_map_of_mem (mem_of_latest? found)
  rw [nameAt_allLabels inSource byHand]
  cases preferred : preferred? source pairs address with
  | none =>
    have empty : order.eraseDups.filter
        (fun n => decide (latest? (source ++ pairs) n = some address)) = [] := by
      rw [List.filter_eq_nil_iff]
      intro n _
      simpa using latest?_ne_of_not_preferred preferred n
    exact iff_of_true (congrArg List.getLast? empty) (by rintro n ⟨⟩)
  | some name =>
    have has := latest?_of_preferred? distinct preferred
    rw [getLast?_filter_eraseDups]
    constructor
    · rintro ⟨-, last⟩ n ⟨⟩ other found
      exact last other (known other found) (by simpa using found)
    · intro last
      refine ⟨⟨known name has, by simpa using has⟩, fun other _ found => ?_⟩
      exact last name rfl other (by simpa using found)

theorem standing_of_distinct (distinct : (pairs.map Prod.fst).Nodup) : standing pairs = pairs := by
  induction pairs with
  | nil => rfl
  | cons n rest ih =>
    rw [List.map_cons, List.nodup_cons] at distinct
    have alone : ¬ (rest.any fun m => m.1 == n.1 && m.2 != n.2) = true := by
      intro overruled
      obtain ⟨m, member, same⟩ := List.any_eq_true.mp overruled
      simp only [Bool.and_eq_true, beq_iff_eq] at same
      exact distinct.1 (same.1 ▸ List.mem_map_of_mem member)
    rw [standing, if_neg alone, ih distinct.2]

theorem nameAt_eq_preferred (distinct : ((source ++ pairs).map Prod.fst).Nodup)
    (inSource : source.InRange) (byHand : pairs.InRange) (address : Int) :
    nameAt (Command.Disassemble.allLabels source (ofPairs pairs)) address =
      preferred? source pairs address := by
  have apart := List.nodup_append.mp ((List.map_append (f := Prod.fst)) ▸ distinct)
  have here : (source ++ pairs).filter
      ((fun n => decide (latest? (source ++ pairs) n = some address)) ∘ Prod.fst) =
      (source ++ pairs).filter fun n => n.2 == address := by
    apply List.filter_congr
    intro n member
    simp [latest?_of_mem distinct member, Bool.beq_eq_decide_eq]
  have kept : source.filter (fun n => n.2 == address && !(pairs.map Prod.fst).contains n.1) =
      source.filter fun n => n.2 == address := by
    apply List.filter_congr
    intro n member
    have absent : n.1 ∉ pairs.map Prod.fst :=
      fun inside => apart.2.2 n.1 (List.mem_map_of_mem member) n.1 inside rfl
    simp [absent]
  rw [nameAt_allLabels inSource byHand, eraseDups_of_nodup distinct, List.filter_map,
    List.getLast?_map, here, List.filter_append, List.getLast?_append, Option.map_or,
    preferred?, byHand?, bySource?, lastName?, lastName?, standing_of_distinct apart.2.1, kept]

end Preferred

end Listing.Names

theorem Listing.label_eq_nameAt {isCode : Int → Bool} {labels : List (Text × Int)}
    {file : List UInt8} {i : Instruction}
    (member : .instruction i ∈ decodeProgram isCode labels file) :
    i.label = nameAt labels i.address := by
  obtain ⟨address, operation, operand, -, -, rfl⟩ := found_of_mem_decode member
  rfl

theorem Assembler.sound_assemble (s : Assembler) (raw : List Text) (file : Text) :
    (s.assemble raw file).1.assembly.labels.Sound := by
  have sound := (Assembly.sound_generate (started s raw file) (SourceLine.ofRaw raw)).1.labels
  rw [assemble_eq]
  split
  · rename_i a ran
    rw [ran] at sound
    simpa [conclude] using sound
  · rename_i a e ran
    rw [ran] at sound
    exact sound

namespace Command

@[simp] theorem Console.out_warnIf (c : Console) (condition : Bool) (t : Text) :
    (c.warnIf condition t).out = c.out := by
  unfold warnIf
  split <;> rfl

@[simp] theorem Console.out_logIf (c : Console) (condition : Bool) (events : List Event) :
    (c.logIf condition events).out = c.out := by
  unfold logIf
  split <;> rfl

theorem parseAddress_range {t : Text} {v : Int} (h : parseAddress t = .ok v) :
    0 ≤ v ∧ v < 65536 := by
  unfold parseAddress at h
  split at h
  · cases h
  · split at h
    · rename_i range
      cases h
      omega
    · cases h

theorem parseLabel_range {t : Text} {n : Text × Int} (h : parseLabel t = .ok n) :
    0 ≤ n.2 ∧ n.2 < 65536 := by
  unfold parseLabel at h
  split at h
  · cases h
  · split at h
    · cases h
    · split at h
      · rename_i parsed
        cases h
        exact parseAddress_range parsed
      · cases h

theorem inRange_of_parseEach {ts : List Text} {pairs : Listing.Names}
    (h : parseEach parseLabel ts = .ok pairs) : pairs.InRange := by
  induction ts generalizing pairs with
  | nil =>
    cases h
    intro n member
    cases member
  | cons t rest ih =>
    unfold parseEach at h
    split at h
    · cases h
    · rename_i first parsed
      split at h
      · cases h
      · rename_i others more
        cases h
        intro n member
        rcases List.mem_cons.mp member with rfl | member
        · exact parseLabel_range parsed
        · exact ih more n member

namespace Disassemble

/-- The labels that a job takes from a source, none if it names no source. -/
def FromSource (files : FileTree) (job : Job) (source : Listing.Names) : Prop :=
  (job.source = none ∧ source = []) ∨
    ∃ path s, job.source = some path ∧ source = s.assembly.labels.symbols ∧
      (Assembler.new { verbose := job.verbose }).assembleFile files (.parse path) = (s, none)

/-- The job is to list a program under the labels of a source and those in `pairs`, which are typed
in this order. -/
structure Asked (files : FileTree) (job : Job) (source pairs : Listing.Names)
    (program : List UInt8) : Prop where
  typed : ∃ args, parseEach parseLabel (args.values .label) = .ok pairs ∧
    labelsOf args = .ok job.labels
  source : FromSource files job source
  program : files.read (Path.parse job.input).text = .ok program

section Asked

variable {files : FileTree} {job : Job} {source pairs : Listing.Names} {program : List UInt8}

theorem Asked.labels (asked : Asked files job source pairs program) :
    job.labels = .ofPairs pairs := by
  obtain ⟨args, typed, labels⟩ := asked.typed
  simp only [labelsOf, typed] at labels
  exact (Except.ok.inj labels).symm

theorem FromSource.sound (h : FromSource files job source) :
    (source.map Prod.fst).Nodup ∧ source.InRange := by
  rcases h with ⟨-, rfl⟩ | ⟨path, s, -, rfl, assembled⟩
  · exact ⟨List.nodup_nil, fun n member => by cases member⟩
  · have sound : s.assembly.labels.Sound := by
      unfold Assembler.assembleFile at assembled
      split at assembled
      · cases assembled
      · rename_i text _
        have sound := Assembler.sound_assemble (Assembler.new { verbose := job.verbose })
          text.lines (Path.parse path).text
        rw [Assembler.assembleText] at assembled
        rwa [assembled] at sound
    refine ⟨by simpa [LabelTable.symbols, Function.comp_def] using sound.distinct, ?_⟩
    intro n member
    obtain ⟨l, inside, rfl⟩ := List.mem_map.mp member
    exact ⟨(sound.labels l inside).low, (sound.labels l inside).high⟩

theorem Asked.work_eq (asked : Asked files job source pairs program) :
    ∃ c : Console, c.files = files ∧ c.out = [] ∧
      work job { files } = list job program source c := by
  unfold work
  simp only [asked.program]
  rcases asked.source with ⟨none, rfl⟩ | ⟨path, s, named, rfl, assembled⟩
  · simp only [none]
    exact ⟨_, by simp, by simp, rfl⟩
  · simp only [named, listWithSource, Console.files_warnIf, assembled]
    exact ⟨_, by simp, by simp, rfl⟩

end Asked

/-- Under a job's labels an instruction shows, of the names that were last given its address, the
one that was first named last. That is the name that should be shown, by hand before the source and
late before early, exactly if no other name of the address was first named after it; so it is if
every name is given once. -/
theorem shown_label_preferred_iff (files : FileTree) (job : Job) (source pairs : Listing.Names)
    (program : List UInt8) (asked : Asked files job source pairs program) :
    let labels := allLabels source job.labels
    let order := (source ++ pairs).map Prod.fst
    (∃ c : Console, c.files = files ∧ c.out = [] ∧
        work job { files } = list job program source c) ∧
      ∀ i, .instruction i ∈ Listing.decodeProgram (options job labels).decodes labels program →
        let preferred := Listing.Names.preferred? source pairs i.address
        let latest := Listing.Names.latest? (source ++ pairs)
        i.label = (order.eraseDups.filter fun name => latest name = some i.address).getLast? ∧
          (i.label = preferred ↔ ∀ name, preferred = some name →
            ∀ other, latest other = some i.address → order.idxOf other ≤ order.idxOf name) ∧
          (order.Nodup → i.label = preferred) := by
  intro labels order
  obtain ⟨args, typed, -⟩ := asked.typed
  obtain ⟨distinct, inSource⟩ := asked.source.sound
  have byHand := inRange_of_parseEach typed
  refine ⟨asked.work_eq, fun i member => ?_⟩
  have label : i.label = Listing.nameAt (allLabels source (.ofPairs pairs)) i.address := by
    rw [← asked.labels]
    exact Listing.label_eq_nameAt member
  rw [label]
  exact ⟨Listing.Names.nameAt_allLabels inSource byHand _,
    Listing.Names.nameAt_eq_preferred_iff distinct inSource byHand _,
    fun once => Listing.Names.nameAt_eq_preferred once inSource byHand _⟩

/-- A source with the labels `a` and `b`, and a third name that is given by hand to the address of
`b`. -/
theorem shown_label_preferred_iff_third_name :
    let files : FileTree :=
      { nodes := [([['s']], .file [0x61, 0x3A, 0x4E, 0x4F, 0x50, 10, 0x62, 0x3A, 0x4E, 0x4F, 0x50]),
          ([['p']], .file [0x0D, 0x08, 0xEA, 0xEA])] }
    let job : Job := { input := ['p'], source := some ['s'], labels := [(['c'], 0x080E)] }
    let source : Listing.Names := [(['a'], 0x080D), (['b'], 0x080E)]
    let labels := allLabels source job.labels
    let i := Listing.instruction labels 0x080E ⟨.nop, .single, .fixed 0xEA 2⟩ []
    Asked files job source [(['c'], 0x080E)] [0x0D, 0x08, 0xEA, 0xEA] ∧
      .instruction i ∈ Listing.decodeProgram (options job labels).decodes labels
        [0x0D, 0x08, 0xEA, 0xEA] ∧
      i.label = some ['c'] := by
  intro files job source labels i
  have assembled : (Assembler.new {}).assembleFile files (.parse ['s']) =
      (((Assembler.new {}).assembleFile files (.parse ['s'])).1, none) :=
    Prod.ext rfl (by decide +kernel)
  have asked : Asked files job source [(['c'], 0x080E)] [0x0D, 0x08, 0xEA, 0xEA] :=
    ⟨⟨⟨[(.source, ['s']), (.label, ['c', '=', '$', '8', '0', 'E'])], [['p']]⟩, rfl, rfl⟩,
      .inr ⟨['s'], _, rfl, by decide +kernel, assembled⟩, rfl⟩
  have member : .instruction i ∈ Listing.decodeProgram (options job labels).decodes labels
      [0x0D, 0x08, 0xEA, 0xEA] := by decide +kernel
  obtain ⟨-, shown⟩ := shown_label_preferred_iff files job source _ _ asked
  exact ⟨asked, member, (shown i member).2.2 (by decide)⟩

/-- The label `a` of a source is given by hand the address of `b`, which is defined after it. At
that address `a` is preferred, and `b` is shown. -/
theorem label_by_hand_not_shown :
    let files : FileTree :=
      { nodes := [([['s']], .file [0x61, 0x3A, 0x4E, 0x4F, 0x50, 10, 0x62, 0x3A, 0x4E, 0x4F, 0x50]),
          ([['p']], .file [0x0D, 0x08, 0xEA, 0xEA])] }
    let job : Job := { input := ['p'], source := some ['s'], labels := [(['a'], 0x080E)] }
    let source : Listing.Names := [(['a'], 0x080D), (['b'], 0x080E)]
    let labels := allLabels source job.labels
    let i := Listing.instruction labels 0x080E ⟨.nop, .single, .fixed 0xEA 2⟩ []
    Asked files job source [(['a'], 0x080E)] [0x0D, 0x08, 0xEA, 0xEA] ∧
      .instruction i ∈ Listing.decodeProgram (options job labels).decodes labels
        [0x0D, 0x08, 0xEA, 0xEA] ∧
      Listing.Names.preferred? source [(['a'], 0x080E)] i.address = some ['a'] ∧
      i.label = some ['b'] := by
  intro files job source labels i
  have assembled : (Assembler.new {}).assembleFile files (.parse ['s']) =
      (((Assembler.new {}).assembleFile files (.parse ['s'])).1, none) :=
    Prod.ext rfl (by decide +kernel)
  have asked : Asked files job source [(['a'], 0x080E)] [0x0D, 0x08, 0xEA, 0xEA] :=
    ⟨⟨⟨[(.source, ['s']), (.label, ['a', '=', '$', '8', '0', 'E'])], [['p']]⟩, rfl, rfl⟩,
      .inr ⟨['s'], _, rfl, by decide +kernel, assembled⟩, rfl⟩
  exact ⟨asked, by decide +kernel⟩

end Disassemble
end Command
end Asm6502
