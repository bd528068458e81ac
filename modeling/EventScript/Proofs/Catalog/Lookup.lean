import EventScript.Catalog.Basic
import Mathlib.Data.List.Basic
import Mathlib.Tactic.Common

/-!
What a catalog finds, and what it does to the values of a command.

An index stands in for a search through the document, in which the last of several entries under one
id or name counts.

* `CatalogDocument.commandsOf`, `CatalogDocument.enumerationsOf`: the entries of an id or a name, as
  the document lists them. The index finds the last one (`Catalog.command?_ofDocument`,
  `Catalog.enumeration?_ofDocument`);
* `CatalogDocument.Shows`: the document names the value of an argument;
* `Catalog.resolved_exactly`: the values of a command are shown under these names, and are otherwise
  as they were;
* `Catalog.resolved_exactly_switches`: values of a repeated argument.
-/

namespace EventScript

/-! ### Entries of a document -/

namespace CatalogDocument

/-- The commands that a document lists under an id, in their order. -/
def commandsOf (d : CatalogDocument) (id : CommandId) : List CommandEntry :=
  (d.classes.filter fun c => c.index == id.bank).flatMap fun c =>
    c.commands.filter fun command => command.index == id.index

/-- The enumerations that a document lists under a name, in their order. -/
def enumerationsOf (d : CatalogDocument) (name : Text) : List Enumeration :=
  d.enumerations.filter fun e => e.name == name

/-- The commands of an id are those listed with it. -/
lemma filterMap_commands (d : CatalogDocument) (id : CommandId) :
    (d.commands.filterMap fun e => if e.1 == id then some e.2 else none) = d.commandsOf id := by
  obtain ⟨bank, index⟩ := id
  have hclass (c : ClassEntry) :
      ((c.commands.map fun command => ((⟨c.index, command.index⟩ : CommandId), command)).filterMap
        fun e => if e.1 == ⟨bank, index⟩ then some e.2 else none) =
      if c.index == bank then c.commands.filter fun command => command.index == index else [] := by
    rw [List.filterMap_map, ← List.filterMap_eq_filter]
    split
    · next hbank =>
        refine List.filterMap_congr fun command _ => ?_
        simp [eq_of_beq hbank, Option.guard]
    · next hbank =>
        refine List.filterMap_eq_nil_iff.mpr fun command _ => ?_
        have hne : c.index ≠ bank := fun h => hbank (beq_iff_eq.mpr h)
        simp [hne]
  rw [commands, commandsOf, List.filterMap_flatMap]
  induction d.classes with
  | nil => rfl
  | cons c classes ih =>
      rw [List.flatMap_cons, ih, hclass, List.filter_cons]
      split
      · rw [List.flatMap_cons]
      · rfl

end CatalogDocument

/-! ### The index -/

/-- Of several entries under one key, a map made from a list holds the last one. -/
lemma getElem?_ofList_eq_getLast? {α β : Type} [BEq α] [LawfulBEq α] [Hashable α]
    (entries : List (α × β)) (key : α) :
    (Std.HashMap.ofList entries)[key]? =
      (entries.filterMap fun e => if e.1 == key then some e.2 else none).getLast? := by
  rw [Std.HashMap.ofList_eq_insertMany_empty, Std.HashMap.getElem?_insertMany_list,
    Std.HashMap.getElem?_empty, Option.or_none, List.findSomeRev?_eq_findSome?_reverse,
    List.getLast?_filterMap]

namespace Catalog

/-- **The index finds the last command of an id.** -/
lemma command?_ofDocument (d : CatalogDocument) (id : CommandId) :
    (ofDocument d).command? id = (d.commandsOf id).getLast? := by
  rw [command?, ofDocument, getElem?_ofList_eq_getLast?, d.filterMap_commands]

/-- **The index finds the last enumeration of a name.** -/
lemma enumeration?_ofDocument (d : CatalogDocument) (name : Text) :
    (ofDocument d).enumeration? name = (d.enumerationsOf name).getLast? := by
  rw [enumeration?, ofDocument, getElem?_ofList_eq_getLast?, List.filterMap_map,
    CatalogDocument.enumerationsOf, ← List.filterMap_eq_filter]
  refine congrArg List.getLast? (List.filterMap_congr fun e _ => ?_)
  simp [Option.guard, String.ofList_inj]

end Catalog

/-! ### Names of values -/

/-- The entry that describes the argument at a position: its own one or, behind the last of them,
this last one if it may be repeated. -/
inductive CommandEntry.Describes (c : CommandEntry) (position : Nat) (a : ArgumentEntry) : Prop
  | own (h : c.arguments[position]? = some a)
  | repeated (hposition : c.arguments.length ≤ position) (h : c.arguments.getLast? = some a)
      (hrepeated : a.isRepeated = true)

lemma CommandEntry.argument?_eq_some_iff {c : CommandEntry} {position : Nat} {a : ArgumentEntry} :
    c.argument? position = some a ↔ c.Describes position a := by
  rw [argument?]
  rcases Nat.lt_or_ge position c.arguments.length with hlt | hle
  · rw [List.getElem?_eq_getElem hlt, Option.some_or]
    constructor
    · exact fun h => .own ((List.getElem?_eq_getElem hlt).trans h)
    · rintro (h | ⟨hle, -, -⟩)
      · exact (List.getElem?_eq_getElem hlt).symm.trans h
      · exact absurd hlt (Nat.not_lt.mpr hle)
  · rw [List.getElem?_eq_none hle, Option.none_or, Option.filter_eq_some_iff, Bool.and_eq_true,
      decide_eq_true_eq]
    constructor
    · exact fun ⟨hlast, hrepeated, _⟩ => .repeated hle hlast hrepeated
    · rintro (h | ⟨-, hlast, hrepeated⟩)
      · rw [List.getElem?_eq_none hle] at h
        cases h
      · exact ⟨hlast, hrepeated, hle⟩

/-- How a document names the value of an argument: the command is listed, an entry describes the
argument and has an enumeration, this one is listed, and one of its members stands under the decimal
numeral of the integer behind the value. -/
inductive CatalogDocument.Shows (d : CatalogDocument) (id : CommandId) (position : Nat)
    (v : Value) : Text → Prop
  | intro {command : CommandEntry} {argument : ArgumentEntry} {name : Text}
      {enumeration : Enumeration} {n : Int} {member : Text}
      (hcommand : (d.commandsOf id).getLast? = some command)
      (hargument : command.Describes position argument) (hname : argument.enumeration = some name)
      (henumeration : (d.enumerationsOf name).getLast? = some enumeration)
      (hvalue : v.plain = .int n)
      (hmember : enumeration.members.lookup (Text.ofInt n) = some member) :
      Shows d id position v
        (Enumeration.compact enumeration.name ++ ['.'] ++ Enumeration.compact member)

lemma Value.toInt?_eq_some_iff {v : Value} {n : Int} : v.toInt? = some n ↔ v.plain = .int n := by
  rw [toInt?]
  split
  · next m hm =>
      rw [hm, Option.some_inj, Value.int.injEq]
  · next hm =>
      constructor
      · intro h
        cases h
      · exact fun h => absurd h (hm n)

/-- A value under a name is another value. -/
lemma Value.named_ne_self (name : Text) (v : Value) : Value.named name v ≠ v := by
  intro h
  have hsize := congrArg sizeOf h
  rw [Value.named.sizeOf_spec] at hsize
  omega

namespace Catalog

/-- The name under which a catalog shows the argument of a command at a position. -/
def shownName? (k : Catalog) (id : CommandId) (position : Nat) (v : Value) : Option Text :=
  (k.command? id).bind fun command =>
    (command.argument? position).bind fun argument => k.memberName? argument v

/-- A value under a name, if there is one. -/
def shownAs (name : Option Text) (v : Value) : Value :=
  match name with
  | some name => .named name v
  | none => v

/-- **The arguments of a command** are the given ones, each under the name that the catalog has for
it. -/
lemma getElem?_arguments_build (k : Catalog) (id : CommandId) (arguments : List Value)
    (layers : Option Layers) (position : Nat) :
    (k.build id arguments layers).arguments[position]? =
      arguments[position]?.map fun v => shownAs (k.shownName? id position v) v := by
  rw [build]
  split
  · next hnone =>
      simp only [shownName?, hnone, Option.bind_none, shownAs, Option.map_id']
  · next command hsome =>
      rw [List.getElem?_mapIdx]
      refine Option.map_congr fun v _ => ?_
      simp only [shownName?, hsome, Option.bind_some]
      cases command.argument? position with
      | none => rfl
      | some argument => rfl

/-- A catalog shows values under the names that its document has for them. -/
lemma shownName?_ofDocument {d : CatalogDocument} {id : CommandId} {position : Nat} {v : Value}
    {name : Text} :
    (ofDocument d).shownName? id position v = some name ↔ d.Shows id position v name := by
  simp only [shownName?, memberName?, Enumeration.memberName?, Option.bind_eq_bind,
    Option.bind_eq_some_iff, Option.map_eq_some_iff, command?_ofDocument, enumeration?_ofDocument,
    CommandEntry.argument?_eq_some_iff, Value.toInt?_eq_some_iff]
  constructor
  · rintro ⟨command, hcommand, argument, hargument, name, hname, enumeration, henumeration, n, hn,
      member, hmember, rfl⟩
    exact .intro hcommand hargument hname henumeration hn hmember
  · rintro ⟨hcommand, hargument, hname, henumeration, hn, hmember⟩
    exact ⟨_, hcommand, _, hargument, _, hname, _, henumeration, _, hn, _, hmember, rfl⟩

lemma shownAs_eq_self_iff {name : Option Text} {v : Value} : shownAs name v = v ↔ name = none := by
  cases name with
  | none => exact iff_of_true rfl rfl
  | some name => exact iff_of_false (Value.named_ne_self name v) (Option.some_ne_none name)

lemma shownAs_eq_named_iff {name : Option Text} {shown : Text} {v : Value} :
    shownAs name v = .named shown v ↔ name = some shown := by
  cases name with
  | none => exact iff_of_false (Value.named_ne_self shown v).symm (Option.some_ne_none shown).symm
  | some name => rw [shownAs, Value.named.injEq, Option.some_inj, and_iff_left rfl]

lemma plain_shownAs (name : Option Text) (v : Value) : (shownAs name v).plain = v.plain := by
  cases name with
  | none => rfl
  | some name => rw [shownAs, Value.plain]

/-- **What a catalog finds, and what it does to the values of a command.** Of the commands listed
under an id, and of the enumerations listed under a name, it finds the last one. A command has the
id, the layers and as many values as were given, with the same plain values behind them, and each of
them is shown under a name exactly if the document has this name for it, and is otherwise as it
was. -/
theorem resolved_exactly (d : CatalogDocument) :
    (∀ id, (ofDocument d).command? id = (d.commandsOf id).getLast?) ∧
      (∀ name, (ofDocument d).enumeration? name = (d.enumerationsOf name).getLast?) ∧
      ∀ (id : CommandId) (arguments : List Value) (layers : Option Layers),
        let c := (ofDocument d).build id arguments layers
        c.id = some id ∧ c.layers = layers ∧
          c.arguments.map Value.plain = arguments.map Value.plain ∧
          ∀ (i : Nat) (v : Value), arguments[i]? = some v → ∃ w, c.arguments[i]? = some w ∧
            (∀ name, w = .named name v ↔ d.Shows id i v name) ∧
            (w = v ↔ ∀ name, ¬ d.Shows id i v name) := by
  refine ⟨command?_ofDocument d, enumeration?_ofDocument d, fun id arguments layers => ?_⟩
  have harguments := getElem?_arguments_build (ofDocument d) id arguments layers
  refine ⟨?_, ?_, ?_, ?_⟩
  · rw [build]
    split <;> rfl
  · rw [build]
    split <;> rfl
  · refine List.ext_getElem? fun i => ?_
    rw [List.getElem?_map, List.getElem?_map, harguments, Option.map_map]
    exact Option.map_congr fun v _ => plain_shownAs _ v
  · intro i v hv
    refine ⟨shownAs ((ofDocument d).shownName? id i v) v, ?_, fun name => ?_, ?_⟩
    · rw [harguments, hv, Option.map_some]
    · rw [shownAs_eq_named_iff, shownName?_ofDocument]
    · rw [shownAs_eq_self_iff, Option.eq_none_iff_forall_ne_some]
      exact forall_congr' fun name => not_congr shownName?_ofDocument

/-- A document with a command for switching flags, listed twice, the values of which may be
repeated, and with two enumerations of one name. -/
def switches : CatalogDocument where
  classes := [⟨"Events".toList, 3, [⟨"Old".toList, 20, []⟩,
    ⟨"Switch".toList, 20, [⟨"States".toList, 0, some "ON/OFF".toList, .zero, .zero, .zero, .zero,
      none, true⟩]⟩]⟩]
  enumerations := [⟨"ON/OFF".toList, [("1".toList, "SET".toList)]⟩,
    ⟨"ON/OFF".toList, [("0".toList, "OFF".toList), ("1".toList, "ON".toList)]⟩]

/-- A value that has a name already is named by the last enumeration, also where it repeats the
argument, and a value that is no member is kept. -/
theorem resolved_exactly_switches :
    let c := (ofDocument switches).build ⟨3, 20⟩ [.int 7, .named ['x'] (.int 1)] none
    c.arguments[0]? = some (.int 7) ∧
      c.arguments[1]? = some (.named "ON/OFF.ON".toList (.named ['x'] (.int 1))) := by
  intro c
  obtain ⟨-, -, hbuild⟩ := resolved_exactly switches
  obtain ⟨-, -, -, hvalues⟩ := hbuild ⟨3, 20⟩ [.int 7, .named ['x'] (.int 1)] none
  obtain ⟨w, hw, -, hkept⟩ := hvalues 0 _ rfl
  obtain ⟨u, hu, hnamed, -⟩ := hvalues 1 _ rfl
  constructor
  · rw [hkept.mpr] at hw
    · exact hw
    · rintro _ ⟨hcommand, hown | hrepeated, hname, henumeration, hvalue, hmember⟩
      · obtain rfl := Option.some.inj hcommand
        obtain rfl := Option.some.inj hown
        obtain rfl := Option.some.inj hname
        obtain rfl := Option.some.inj henumeration
        obtain rfl := Value.int.inj hvalue
        cases hmember
      · obtain rfl := Option.some.inj hcommand
        exact absurd hrepeated (by decide)
  · rw [(hnamed _).mpr (.intro rfl (.repeated (by decide) rfl rfl) rfl rfl rfl rfl)] at hu
    exact hu

end Catalog

end EventScript
