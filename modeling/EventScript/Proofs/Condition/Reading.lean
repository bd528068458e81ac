import EventScript.Layout.Statement
import EventScript.Proofs.Text.Word

/-!
Conditions read back from their printed text.

The text of a condition without its blanks is read from the front. A condition begins with a mark of
its negation, then with a parenthesis or a word, and what is behind the word tells which condition
it is. Only a negated comparison is not read back as it was: it is printed, and read, as the
opposite one.

* `Condition.isReadable`: the conditions of which this is true;
* `Condition.normal`: a condition with its negated comparisons replaced by the opposite ones;
* `Condition.read`, `Condition.readParts`: the reader;
* `Condition.read_text`: **the reader gives the normal form of what was printed**;
* `Condition.squeeze_argument_eq_iff`: hence the text of an argument determines the normal form.
-/

namespace EventScript

/-! ### What can be read -/

/-- Whether a query has an identifier for a name, and simple arguments. -/
def Query.isReadable (q : Query) : Bool := q.name.isIdentifier && q.arguments.all Value.isSimple

/-- Whether an operand is simple, or a query that can be read. -/
def Operand.isReadable : Operand → Bool
  | value v => v.isSimple
  | query q => q.isReadable

/-- Whether a condition without parts can be read: a variable is read under an identifier and not
from a group, and a placeholder cannot be read. -/
def Atom.isReadable : Atom → Bool
  | compare _ left right => left.isReadable && right.isSimple
  | query q => q.isReadable
  | read _ _ none => true
  | read group _ (some name) => decide (group = 0) && name.isIdentifier
  | unreadable _ => false

namespace Condition

mutual

/-- Whether a condition can be read: so can its atoms, every combination has at least two parts, and
there are no remarks. -/
def isReadable : Condition → Bool
  | atom a _ remarks => a.isReadable && remarks.isEmpty
  | combine _ parts _ remarks => decide (2 ≤ parts.length) && areReadable parts && remarks.isEmpty

/-- Whether all parts of a combination can be read. -/
def areReadable : List Condition → Bool
  | [] => true
  | c :: cs => c.isReadable && areReadable cs

end

mutual

/-- The condition with the opposite comparison for every negated one. -/
def normal : Condition → Condition
  | atom (.compare relation left right) negated remarks =>
    atom (.compare (if negated then relation.opposite else relation) left right) false remarks
  | atom a negated remarks => atom a negated remarks
  | combine op parts negated remarks => combine op (normals parts) negated remarks

/-- The normal forms of the parts of a combination. -/
def normals : List Condition → List Condition
  | [] => []
  | c :: cs => c.normal :: normals cs

end

end Condition

/-! ### Pieces of a text -/

namespace Text

/-- What stands in front of the first character of a kind. -/
def upTo (d : Char) (t : Text) : Text := t.takeWhile fun c => c != d

/-- What stands behind the first character of a kind. -/
def past (d : Char) (t : Text) : Text := (t.dropWhile fun c => c != d).drop 1

lemma upTo_append {d : Char} {t : Text} (h : d ∉ t) (r : Text) : upTo d (t ++ d :: r) = t := by
  have ht : ∀ c ∈ t, (c != d) = true := fun c hc => by
    rw [bne_iff_ne]
    rintro rfl
    exact h hc
  rw [upTo, List.takeWhile_append_of_pos ht, List.takeWhile_cons_of_neg (by simp), List.append_nil]

lemma past_append {d : Char} {t : Text} (h : d ∉ t) (r : Text) : past d (t ++ d :: r) = r := by
  have ht : ∀ c ∈ t, (c != d) = true := fun c hc => by
    rw [bne_iff_ne]
    rintro rfl
    exact h hc
  rw [past, List.dropWhile_append_of_pos ht, List.dropWhile_cons_of_neg (by simp)]
  rfl

lemma IsWord.notMem {t : Text} (h : IsWord t) {d : Char} (hd : isWordChar d = false) : d ∉ t :=
  fun hmem => by
    rw [h d hmem] at hd
    cases hd

end Text

namespace Value

/-- The values between commas. -/
def readList (t : Text) : List Value := if t = [] then [] else (t.splitOn ',').map read

/-- The texts of values between commas. -/
def joined (vs : List Value) : Text := [','].intercalate (vs.map text)

lemma joined_cons (v : Value) (vs : List Value) :
    joined (v :: vs) = v.text ++ vs.flatMap fun u => [','] ++ u.text := by
  rw [joined, List.map_cons, Text.intercalate_cons, List.flatMap_map]

lemma readList_joined {vs : List Value} (h : ∀ v ∈ vs, v.isSimple = true) :
    readList (joined vs) = vs := by
  cases vs with
  | nil => rfl
  | cons v vs =>
      have hne : joined (v :: vs) ≠ [] := by
        rw [joined_cons]
        exact List.append_ne_nil_of_left_ne_nil (isWord_text (h v List.mem_cons_self)).2 _
      have hcomma : ∀ t ∈ (v :: vs).map text, ',' ∉ t := by
        intro t ht
        obtain ⟨u, hu, rfl⟩ := List.mem_map.mp ht
        exact (isWord_text (h u hu)).1.notMem rfl
      have hread : ∀ u ∈ v :: vs, (read ∘ text) u = id u := fun u hu => read_text (h u hu)
      rw [readList, if_neg hne, joined, List.splitOn_intercalate ',' hcomma (List.cons_ne_nil _ _),
        List.map_map, List.map_congr_left hread, List.map_id]

/-- What is left of listed values without the blanks. -/
lemma squeeze_commaList {vs : List Value} (h : ∀ v ∈ vs, v.isSimple = true) :
    Text.squeeze (Text.commaList (vs.map text)) = joined vs := by
  have hvalues : ∀ v ∈ vs, (Text.squeeze ∘ text) v = v.text := fun v hv =>
    (isWord_text (h v hv)).1.squeeze
  rw [Text.commaList, Text.squeeze_intercalate, List.map_map, List.map_congr_left hvalues]
  rfl

/-- No parenthesis stands among simple values. -/
lemma notMem_joined {vs : List Value} (h : ∀ v ∈ vs, v.isSimple = true) {d : Char}
    (hd : Text.isWordChar d = false) (hcomma : d ≠ ',') : d ∉ joined vs := by
  cases vs with
  | nil => exact List.not_mem_nil
  | cons v vs =>
      rw [joined_cons, List.mem_append, List.mem_flatMap]
      rintro (hmem | ⟨u, hu, hmem⟩)
      · exact (isWord_text (h v List.mem_cons_self)).1.notMem hd hmem
      · rcases List.mem_append.mp hmem with hmem | hmem
        · exact hcomma (List.mem_singleton.mp hmem)
        · exact (isWord_text (h u (List.mem_cons_of_mem v hu))).1.notMem hd hmem

end Value

/-! ### Texts without their blanks -/

/-- What is left of a query without its blanks. -/
lemma Query.squeeze_text {q : Query} (h : q.isReadable = true) :
    Text.squeeze q.text = q.name ++ '(' :: (Value.joined q.arguments ++ [')']) := by
  obtain ⟨hname, hargs⟩ := Bool.and_eq_true_iff.mp h
  have hjoined : Text.squeeze (argumentsText q.arguments none) = Value.joined q.arguments := by
    rw [argumentsText, Option.toList_none, List.map_nil, List.append_nil,
      Value.squeeze_commaList (List.all_eq_true.mp hargs)]
  rw [text, Text.squeeze_append, Text.squeeze_append, Text.squeeze_append,
    (Text.isWord_of_isIdentifier hname).squeeze, hjoined]
  simp [Text.squeeze_cons, Text.isBlank, Text.blanks]

/-- What is left of an operand without its blanks. -/
def Operand.squeezed : Operand → Text
  | value v => v.text
  | query q => q.name ++ '(' :: (Value.joined q.arguments ++ [')'])

lemma Operand.squeeze_text {o : Operand} (h : o.isReadable = true) :
    Text.squeeze o.text = o.squeezed := by
  cases o with
  | value v => exact (Value.isWord_text h).1.squeeze
  | query q => exact Query.squeeze_text h

lemma Comparison.squeeze_symbol (c : Comparison) : Text.squeeze c.symbol = c.symbol := by
  cases c <;> decide

/-- The text behind a read. -/
def passedText (compiled : Bool) : Text := if compiled then ".Passed".toList else []

lemma squeeze_passedText (compiled : Bool) :
    Text.squeeze (passedText compiled) = passedText compiled := by
  cases compiled <;> decide

lemma squeeze_negationMark (negated : Bool) :
    Text.squeeze (negationMark negated) = negationMark negated := by
  cases negated <;> decide

lemma squeeze_separator (op : Connective) :
    Text.squeeze op.separator = match op with
      | .all => ['&', '&']
      | .any => ['|', '|'] := by
  cases op <;> decide

/-! ### The reader -/

/-- The relation at the front of a text, if there is one. -/
def Comparison.read (t : Text) : Option (Comparison × Text) :=
  match ofSymbol? (t.take 2) with
  | some relation => some (relation, t.drop 2)
  | none => (ofSymbol? (t.take 1)).map fun relation => (relation, t.drop 1)

namespace Condition

/-- The mark of a negation at the front of a text. -/
def readMark (t : Text) : Bool × Text :=
  if t.head? = some '!' then (true, t.tail) else (false, t)

/-- Whether the result that was stored last is meant. -/
def readPassed (t : Text) : Bool × Text :=
  if t.head? = some '.' then (true, Text.afterWord t.tail) else (false, t)

/-- The comparison of an operand, if there is a relation behind it, and what stands there else. -/
def readBehind (left : Operand) (other : Condition × Text) (t : Text) : Condition × Text :=
  match Comparison.read t with
  | some (relation, t) =>
    (atom (.compare relation left (Value.read t.word)) false [], t.afterWord)
  | none => other

/-- The condition without parts at the front of a text, behind the mark of its negation. -/
def readAtom (negated : Bool) (t : Text) : Condition × Text :=
  let name := t.word
  match t.afterWord with
  | '(' :: t =>
    let q : Query := ⟨name, Value.readList (Text.upTo ')' t)⟩
    readBehind (.query q) (atom (.query q) negated [], Text.past ')' t) (Text.past ')' t)
  | '[' :: t =>
    let (compiled, rest) := readPassed (Text.past ']' t)
    let group := (Value.read (Text.upTo ']' t)).toInt?.getD 0
    (atom (.read group compiled none) negated [], rest)
  | t =>
    let (compiled, rest) := readPassed t
    readBehind (.value (Value.read name)) (atom (.read 0 compiled (some name)) negated [], rest) t

mutual

/-- The condition at the front of a text, and what is behind it. The number bounds how deep it may
be. -/
def read : Nat → Text → Option (Condition × Text)
  | 0, _ => none
  | depth + 1, t =>
    let (negated, t) := readMark t
    if t.head? = some '(' then
      (readParts depth t.tail).map fun (op, parts, rest) =>
        (combine (op.getD .all) parts negated [], rest)
    else some (readAtom negated t)

/-- The parts of a combination up to the closing parenthesis, and how they are joined if there are
several. -/
def readParts : Nat → Text → Option (Option Connective × List Condition × Text)
  | 0, _ => none
  | depth + 1, t =>
    match read depth t with
    | some (c, '&' :: '&' :: t) =>
      (readParts depth t).map fun (_, parts, rest) => (some .all, c :: parts, rest)
    | some (c, '|' :: '|' :: t) =>
      (readParts depth t).map fun (_, parts, rest) => (some .any, c :: parts, rest)
    | some (c, ')' :: t) => some (none, [c], t)
    | _ => none

end

/-- The condition in the place of an argument, up to the closing parenthesis behind it. -/
def readArgument (depth : Nat) (t : Text) : Option Condition :=
  (readParts depth t).bind fun (op, parts, _) =>
    match op, parts with
    | some op, parts => some (combine op parts false [])
    | none, [c] => some c
    | none, _ => none

end Condition

/-! ### Atoms -/

/-- What stands behind a condition: the next part of a combination, or its end. -/
inductive Stops : Text → Prop
  | all (t : Text) : Stops ('&' :: t)
  | any (t : Text) : Stops ('|' :: t)
  | close (t : Text) : Stops (')' :: t)

lemma Stops.endsWord {r : Text} (h : Stops r) : r.EndsWord := by
  cases h <;> exact ⟨_, _, rfl, rfl⟩

/-- A relation is read off its operator in front of a word. -/
lemma Comparison.read_symbol (relation : Comparison) {w : Text} (hw : w.IsWord) (hne : w ≠ [])
    (r : Text) : read (relation.symbol ++ (w ++ r)) = some (relation, w ++ r) := by
  obtain ⟨c, t, rfl⟩ := List.exists_cons_of_ne_nil hne
  have hc : ('=' == c) = false := by
    rw [beq_eq_false_iff_ne]
    rintro rfl
    exact absurd (hw '=' List.mem_cons_self) (by decide)
  cases relation <;> simp [read, ofSymbol?, all, symbol, hc]

lemma Comparison.read_eq_none {r : Text} (h : Stops r) : read r = none := by
  cases h <;> simp [read, ofSymbol?, all, symbol]

namespace Condition

lemma readBehind_symbol (left : Operand) (other : Condition × Text) (relation : Comparison)
    {v : Value} (hv : v.isSimple = true) {r : Text} (hr : Stops r) :
    readBehind left other (relation.symbol ++ (v.text ++ r)) =
      (atom (.compare relation left v) false [], r) := by
  obtain ⟨hword, hne⟩ := Value.isWord_text hv
  rw [readBehind, Comparison.read_symbol relation hword hne]
  simp only [Text.word_append hword hr.endsWord, Text.afterWord_append hword hr.endsWord,
    Value.read_text hv]

lemma readBehind_stops (left : Operand) (other : Condition × Text) {r : Text} (hr : Stops r) :
    readBehind left other r = other := by
  rw [readBehind, Comparison.read_eq_none hr]

lemma readPassed_append (compiled : Bool) {r : Text} (hr : Stops r) :
    readPassed (passedText compiled ++ r) = (compiled, r) := by
  have hword : Text.IsWord "Passed".toList := List.all_eq_true.mp rfl
  cases compiled with
  | true => exact Prod.ext rfl (Text.afterWord_append hword hr.endsWord)
  | false => cases hr <;> rfl

/-- A word with a mark in front of it, or without. -/
lemma readMark_negationMark (negated : Bool) {w : Text} (hw : w.IsWord) (hne : w ≠ []) (t : Text) :
    readMark (negationMark negated ++ (w ++ t)) = (negated, w ++ t) ∧
      (w ++ t).head? ≠ some '(' := by
  obtain ⟨c, w, rfl⟩ := List.exists_cons_of_ne_nil hne
  have hc : ∀ d, Text.isWordChar d = false → c ≠ d := by
    rintro d hd rfl
    rw [hw c List.mem_cons_self] at hd
    cases hd
  have hmark := hc '!' rfl
  have hopen := hc '(' rfl
  constructor
  · cases negated <;> simp [readMark, negationMark, hmark]
  · simpa using hopen

/-- A query at the front of a text. -/
lemma readAtom_query (negated : Bool) {q : Query} (hq : q.isReadable = true) (r : Text) :
    readAtom negated ((Operand.query q).squeezed ++ r) =
      readBehind (.query q) (atom (.query q) negated [], r) r := by
  obtain ⟨hname, hargs⟩ := Bool.and_eq_true_iff.mp hq
  have hargs : ∀ v ∈ q.arguments, v.isSimple = true := List.all_eq_true.mp hargs
  have hclose : ')' ∉ Value.joined q.arguments := Value.notMem_joined hargs rfl (by decide)
  have htext : (Operand.query q).squeezed ++ r =
      q.name ++ '(' :: (Value.joined q.arguments ++ ')' :: r) := by
    simp [Operand.squeezed]
  have hword := Text.isWord_of_isIdentifier hname
  rw [htext, readAtom, Text.word_append hword ⟨_, _, rfl, rfl⟩,
    Text.afterWord_append hword ⟨_, _, rfl, rfl⟩]
  simp only [Text.upTo_append hclose, Text.past_append hclose, Value.readList_joined hargs]

/-- A word at the front of a text, with neither arguments nor a number behind it. -/
lemma readAtom_word (negated : Bool) {w : Text} (hw : w.IsWord) {c : Char} (t : Text)
    (hc : Text.isWordChar c = false) (hopen : c ≠ '(') (hbracket : c ≠ '[') :
    readAtom negated (w ++ c :: t) =
      readBehind (.value (Value.read w))
        (atom (.read 0 (readPassed (c :: t)).1 (some w)) negated [], (readPassed (c :: t)).2)
        (c :: t) := by
  rw [readAtom, Text.word_append hw ⟨_, _, rfl, hc⟩, Text.afterWord_append hw ⟨_, _, rfl, hc⟩]
  split
  · next heq => exact absurd (List.cons.inj heq).1 hopen
  · next heq => exact absurd (List.cons.inj heq).1 hbracket
  · rfl

/-- A read of a group at the front of a text. -/
lemma readAtom_group (negated : Bool) (group : Int) (t : Text) :
    readAtom negated ("cond".toList ++ '[' :: (Text.ofInt group ++ ']' :: t)) =
      (atom (.read group (readPassed t).1 none) negated [], (readPassed t).2) := by
  have hword : Text.IsWord "cond".toList := List.all_eq_true.mp rfl
  have hclose : ']' ∉ Text.ofInt group := (Text.isWord_ofInt group).1.notMem rfl
  rw [readAtom, Text.word_append hword ⟨_, _, rfl, rfl⟩,
    Text.afterWord_append hword ⟨_, _, rfl, rfl⟩]
  simp only [Text.upTo_append hclose, Text.past_append hclose, Value.read_ofInt]
  rfl

/-- What reading an atom comes to: behind its mark it begins with no parenthesis, and it is read. -/
def ReadsAtom (t : Text) (c : Condition) (r : Text) : Prop :=
  (readMark t).2.head? ≠ some '(' ∧ readAtom (readMark t).1 (readMark t).2 = (c, r)

/-- A comparison is read, of whichever relation it is printed with. -/
lemma readsAtom_compare (relation : Comparison) {left : Operand} {right : Value}
    (hleft : left.isReadable = true) (hright : right.isSimple = true) {r : Text} (hr : Stops r) :
    ReadsAtom (left.squeezed ++ (relation.symbol ++ (right.text ++ r)))
      (atom (.compare relation left right) false []) r := by
  cases left with
  | value v =>
      obtain ⟨hword, hne⟩ := Value.isWord_text hleft
      obtain ⟨hmark, hopen⟩ := readMark_negationMark false hword hne
        (relation.symbol ++ (right.text ++ r))
      have hmark' : readMark (v.text ++ (relation.symbol ++ (right.text ++ r))) = _ := hmark
      have hsymbol : ∃ c t, relation.symbol = c :: t ∧ Text.isWordChar c = false ∧ c ≠ '(' ∧
          c ≠ '[' := by
        cases relation <;> exact ⟨_, _, rfl, by decide, by decide, by decide⟩
      obtain ⟨c, t, hc, hend, hparen, hbracket⟩ := hsymbol
      rw [ReadsAtom, Operand.squeezed, hmark']
      refine ⟨hopen, ?_⟩
      have hread := readAtom_word false hword (t ++ (right.text ++ r)) hend hparen hbracket
      rw [← List.cons_append, ← hc, Value.read_text hleft, readBehind_symbol _ _ _ hright hr]
        at hread
      exact hread
  | query q =>
      obtain ⟨hname, -⟩ := Bool.and_eq_true_iff.mp hleft
      obtain ⟨c, t, hc, -⟩ := Text.exists_of_isIdentifier hname
      obtain ⟨hmark, hopen⟩ := readMark_negationMark false (Text.isWord_of_isIdentifier hname)
        (by rw [hc]; exact List.cons_ne_nil c t)
        ('(' :: (Value.joined q.arguments ++ [')']) ++ (relation.symbol ++ (right.text ++ r)))
      have hmark' : readMark ((Operand.query q).squeezed ++
          (relation.symbol ++ (right.text ++ r))) =
            (false, (Operand.query q).squeezed ++ (relation.symbol ++ (right.text ++ r))) := by
        rw [Operand.squeezed, List.append_assoc]
        exact hmark
      rw [ReadsAtom, hmark']
      refine ⟨by rw [Operand.squeezed, List.append_assoc]; exact hopen, ?_⟩
      rw [readAtom_query false hleft, readBehind_symbol _ _ _ hright hr]

lemma readsAtom_query (negated : Bool) {q : Query} (hq : q.isReadable = true) {r : Text}
    (hr : Stops r) :
    ReadsAtom (Text.squeeze ((Atom.query q).text negated) ++ r) (atom (.query q) negated []) r := by
  obtain ⟨hname, -⟩ := Bool.and_eq_true_iff.mp hq
  obtain ⟨c, t, hc, -, -, hword⟩ := Text.exists_of_isIdentifier hname
  obtain ⟨hmark, hopen⟩ := readMark_negationMark negated hword
    (by rw [hc]; exact List.cons_ne_nil c t) ('(' :: (Value.joined q.arguments ++ [')']) ++ r)
  have htext : Text.squeeze ((Atom.query q).text negated) ++ r =
      negationMark negated ++ (q.name ++ ('(' :: (Value.joined q.arguments ++ [')']) ++ r)) := by
    rw [Atom.text, Text.squeeze_append, squeeze_negationMark, Query.squeeze_text hq,
      List.append_assoc, List.append_assoc]
  have hread := readAtom_query negated hq r
  rw [readBehind_stops _ _ hr, Operand.squeezed, List.append_assoc] at hread
  rw [ReadsAtom, htext, hmark]
  exact ⟨hopen, hread⟩

lemma readsAtom_group (negated : Bool) (group : Int) (compiled : Bool) {r : Text} (hr : Stops r) :
    ReadsAtom (Text.squeeze ((Atom.read group compiled none).text negated) ++ r)
      (atom (.read group compiled none) negated []) r := by
  have hcond : Text.squeeze "cond[".toList = "cond".toList ++ ['['] := by decide
  have hbracket : Text.squeeze [']'] = [']'] := by decide
  have hword : Text.IsWord "cond".toList := List.all_eq_true.mp rfl
  have htext : Text.squeeze ((Atom.read group compiled none).text negated) ++ r =
      negationMark negated ++
        ("cond".toList ++ '[' :: (Text.ofInt group ++ ']' :: (passedText compiled ++ r))) := by
    have hsplit : (Atom.read group compiled none).text negated =
        negationMark negated ++ ("cond[".toList ++ Text.ofInt group ++ [']']) ++
          passedText compiled := rfl
    rw [hsplit]
    simp only [Text.squeeze_append, squeeze_negationMark, hcond,
      (Text.isWord_ofInt group).1.squeeze, hbracket, squeeze_passedText]
    simp only [List.append_assoc, List.nil_append, List.cons_append]
  obtain ⟨hmark, hopen⟩ := readMark_negationMark negated hword (by decide)
    ('[' :: (Text.ofInt group ++ ']' :: (passedText compiled ++ r)))
  rw [ReadsAtom, htext, hmark]
  refine ⟨hopen, ?_⟩
  rw [readAtom_group, readPassed_append compiled hr]

lemma readsAtom_variable (negated : Bool) {name : Text} (hname : name.isIdentifier = true)
    (compiled : Bool) {r : Text} (hr : Stops r) :
    ReadsAtom (Text.squeeze ((Atom.read 0 compiled (some name)).text negated) ++ r)
      (atom (.read 0 compiled (some name)) negated []) r := by
  obtain ⟨c, t, hc, -, -, hword⟩ := Text.exists_of_isIdentifier hname
  have htext : Text.squeeze ((Atom.read 0 compiled (some name)).text negated) ++ r =
      negationMark negated ++ (name ++ (passedText compiled ++ r)) := by
    have hsplit : (Atom.read 0 compiled (some name)).text negated =
        negationMark negated ++ name ++ passedText compiled := rfl
    rw [hsplit]
    simp only [Text.squeeze_append, squeeze_negationMark, hword.squeeze, squeeze_passedText,
      List.append_assoc]
  obtain ⟨hmark, hopen⟩ := readMark_negationMark negated hword
    (by rw [hc]; exact List.cons_ne_nil c t) (passedText compiled ++ r)
  -- What stands behind the name is no relation, whether it is `.Passed` or the end.
  obtain ⟨d, s, hd, hend, hparen, hbracket, hnone⟩ : ∃ d s, passedText compiled ++ r = d :: s ∧
      Text.isWordChar d = false ∧ d ≠ '(' ∧ d ≠ '[' ∧ Comparison.read (d :: s) = none := by
    cases compiled with
    | true => exact ⟨_, _, rfl, by decide, by decide, by decide, rfl⟩
    | false =>
        have hnone := Comparison.read_eq_none hr
        cases hr <;> exact ⟨_, _, rfl, by decide, by decide, by decide, hnone⟩
  rw [ReadsAtom, htext, hmark]
  refine ⟨hopen, ?_⟩
  have hread := readAtom_word negated hword s hend hparen hbracket
  rw [readBehind, hnone, ← hd, readPassed_append compiled hr] at hread
  exact hread

/-- **An atom is read.** -/
lemma readsAtom_text {a : Atom} (h : a.isReadable = true) (negated : Bool) {r : Text}
    (hr : Stops r) :
    ReadsAtom (Text.squeeze (a.text negated) ++ r) (atom a negated []).normal r := by
  cases a with
  | compare relation left right =>
      obtain ⟨hleft, hright⟩ := Bool.and_eq_true_iff.mp h
      have htext : Text.squeeze ((Atom.compare relation left right).text negated) ++ r =
          left.squeezed ++
            ((if negated then relation.opposite else relation).symbol ++ (right.text ++ r)) := by
        have hblank : Text.squeeze [' '] = [] := by decide
        simp only [Atom.text, Text.squeeze_append, Operand.squeeze_text hleft, hblank,
          Comparison.squeeze_symbol, (Value.isWord_text hright).1.squeeze, List.nil_append,
          List.append_assoc]
      rw [htext]
      exact readsAtom_compare _ hleft hright hr
  | query q => exact readsAtom_query negated h hr
  | read group compiled name =>
      cases name with
      | none => exact readsAtom_group negated group compiled hr
      | some name =>
          obtain ⟨hgroup, hname⟩ := Bool.and_eq_true_iff.mp h
          obtain rfl : group = 0 := of_decide_eq_true hgroup
          exact readsAtom_variable negated hname compiled hr
  | unreadable message => cases h

/-! ### Combinations -/

/-- The texts of parts without their blanks, each but the first behind the separator, and then the
closing parenthesis. -/
def partsText (op : Connective) (cs : List Condition) (r : Text) : Text :=
  (Text.squeeze op.separator).intercalate ((texts cs).map Text.squeeze) ++ ')' :: r

lemma partsText_singleton (op : Connective) (c : Condition) (r : Text) :
    partsText op [c] r = Text.squeeze c.text ++ ')' :: r := by
  simp [partsText, texts]

lemma partsText_cons_cons (op : Connective) (c d : Condition) (cs : List Condition) (r : Text) :
    partsText op (c :: d :: cs) r =
      Text.squeeze c.text ++ (Text.squeeze op.separator ++ partsText op (d :: cs) r) := by
  simp only [partsText, texts, List.map_cons, List.intercalate_cons_cons, List.append_assoc]

/-- How parts are joined is known if there are several. -/
def joint? (op : Connective) (cs : List Condition) : Option Connective :=
  if 2 ≤ cs.length then some op else none

/-- What is left of a combination without its blanks. -/
lemma squeeze_text_combine (op : Connective) (parts : List Condition) (negated : Bool)
    (remarks : List Remark) (r : Text) :
    Text.squeeze (combine op parts negated remarks).text ++ r =
      negationMark negated ++ '(' :: partsText op parts r := by
  have hopen : Text.squeeze ['('] = ['('] := by decide
  have hclose : Text.squeeze [')'] = [')'] := by decide
  rw [text, Text.squeeze_append, Text.squeeze_append, Text.squeeze_append, squeeze_negationMark,
    hopen, hclose, Text.squeeze_intercalate, partsText]
  simp only [List.append_assoc, List.nil_append, List.cons_append]

lemma readMark_paren (negated : Bool) (t : Text) :
    readMark (negationMark negated ++ '(' :: t) = (negated, '(' :: t) := by
  cases negated <;> rfl

mutual

/-- **A condition is read off its text, up to the normal form**, if the reader may go deep
enough. -/
theorem read_text : ∀ c : Condition, c.isReadable = true →
    ∃ n, ∀ depth, n ≤ depth → ∀ r, Stops r →
      read depth (Text.squeeze c.text ++ r) = some (c.normal, r)
  | atom a negated remarks, h => by
      obtain ⟨ha, hremarks⟩ := Bool.and_eq_true_iff.mp h
      obtain rfl : remarks = [] := List.isEmpty_iff.mp hremarks
      refine ⟨1, fun depth hdepth r hr => ?_⟩
      obtain ⟨depth, rfl⟩ := Nat.exists_eq_succ_of_ne_zero (Nat.ne_of_gt hdepth)
      obtain ⟨hopen, hread⟩ := readsAtom_text ha negated hr
      rw [read, text]
      simp only [if_neg hopen, hread]
  | combine op parts negated remarks, h => by
      obtain ⟨h, hremarks⟩ := Bool.and_eq_true_iff.mp h
      obtain ⟨hlength, hparts⟩ := Bool.and_eq_true_iff.mp h
      have hlength : 2 ≤ parts.length := of_decide_eq_true hlength
      obtain rfl : remarks = [] := List.isEmpty_iff.mp hremarks
      have hne : parts ≠ [] := by
        rintro rfl
        exact absurd hlength (by decide)
      obtain ⟨n, hn⟩ := readParts_text parts hne hparts
      refine ⟨n + 1, fun depth hdepth r hr => ?_⟩
      obtain ⟨depth, rfl⟩ := Nat.exists_eq_succ_of_ne_zero (Nat.ne_of_gt (by omega : 0 < depth))
      rw [squeeze_text_combine, read, readMark_paren]
      simp only [List.head?_cons, if_true, List.tail_cons, hn depth (by omega) op r,
        Option.map_some, joint?, if_pos hlength, Option.getD_some]
      rfl

/-- The parts of a combination are read. -/
theorem readParts_text : ∀ cs : List Condition, cs ≠ [] → areReadable cs = true →
    ∃ n, ∀ depth, n ≤ depth → ∀ op r,
      readParts depth (partsText op cs r) = some (joint? op cs, normals cs, r)
  | [], hne, _ => absurd rfl hne
  | [c], _, h => by
      obtain ⟨hc, -⟩ := Bool.and_eq_true_iff.mp h
      obtain ⟨n, hn⟩ := read_text c hc
      refine ⟨n + 1, fun depth hdepth op r => ?_⟩
      obtain ⟨depth, rfl⟩ := Nat.exists_eq_succ_of_ne_zero (Nat.ne_of_gt (by omega : 0 < depth))
      rw [partsText_singleton, readParts, hn depth (by omega) _ (.close r)]
      rfl
  | c :: d :: cs, _, h => by
      obtain ⟨hc, hcs⟩ := Bool.and_eq_true_iff.mp h
      obtain ⟨n, hn⟩ := read_text c hc
      obtain ⟨m, hm⟩ := readParts_text (d :: cs) (List.cons_ne_nil d cs) hcs
      refine ⟨max n m + 1, fun depth hdepth op r => ?_⟩
      obtain ⟨depth, rfl⟩ := Nat.exists_eq_succ_of_ne_zero (Nat.ne_of_gt (by omega : 0 < depth))
      have hrest := hm depth (by omega) op r
      rw [partsText_cons_cons, squeeze_separator, readParts]
      cases op with
      | all =>
          have hfirst := hn depth (by omega) _ (.all ('&' :: partsText .all (d :: cs) r))
          simp only [List.cons_append, List.nil_append, hfirst, hrest, Option.map_some]
          rfl
      | any =>
          have hfirst := hn depth (by omega) _ (.any ('|' :: partsText .any (d :: cs) r))
          simp only [List.cons_append, List.nil_append, hfirst, hrest, Option.map_some]
          rfl

end

/-! ### Arguments -/

/-- As an argument a condition is laid out as elsewhere, unless it is a combination that is not
negated. -/
lemma layout_bare (c : Condition) : (∃ op parts remarks, c = combine op parts false remarks) ∨
    c.layout true = c.layout false := by
  cases c with
  | atom a negated remarks => exact Or.inr rfl
  | combine op parts negated remarks =>
      cases negated with
      | false => exact Or.inl ⟨op, parts, remarks, rfl⟩
      | true => exact Or.inr rfl

/-- **A condition is read off its text as an argument**, up to the normal form. -/
theorem readArgument_text {c : Condition} (h : c.isReadable = true) :
    ∃ n, ∀ depth, n ≤ depth → ∀ r,
      readArgument depth (Text.squeeze (c.layout true).oneLine ++ ')' :: r) = some c.normal := by
  rcases c.layout_bare with ⟨op, parts, remarks, rfl⟩ | hlayout
  · obtain ⟨h, hremarks⟩ := Bool.and_eq_true_iff.mp h
    obtain ⟨hlength, hparts⟩ := Bool.and_eq_true_iff.mp h
    have hlength : 2 ≤ parts.length := of_decide_eq_true hlength
    obtain rfl : remarks = [] := List.isEmpty_iff.mp hremarks
    have hne : parts ≠ [] := by
      rintro rfl
      exact absurd hlength (by decide)
    obtain ⟨n, hn⟩ := readParts_text parts hne hparts
    refine ⟨n, fun depth hdepth r => ?_⟩
    have htext : Text.squeeze ((combine op parts false []).layout true).oneLine ++ ')' :: r =
        partsText op parts r := by
      have hbare : brackets true false parts = ([], []) := by
        rw [brackets, if_pos (by simpa using hne)]
      rw [layout, hbare]
      simp only [Layout.Tree.oneLine, partTexts_layouts, List.nil_append, List.append_nil,
        Text.squeeze_intercalate]
      rfl
    rw [htext, readArgument, hn depth hdepth op r, Option.bind_some, joint?, if_pos hlength]
    rfl
  · obtain ⟨n, hn⟩ := readParts_text [c] (List.cons_ne_nil c [])
      (Bool.and_eq_true_iff.mpr ⟨h, rfl⟩)
    refine ⟨n, fun depth hdepth r => ?_⟩
    rw [hlayout, oneLine_layout, ← partsText_singleton .all, readArgument, hn depth hdepth .all r]
    rfl

/-! ### Normal forms are printed alike -/

lemma text_normal_atom (a : Atom) (negated : Bool) (remarks : List Remark) :
    (atom a negated remarks).normal.text = a.text negated := by
  cases a with
  | compare relation left right => cases negated <;> rfl
  | query q => rfl
  | read group compiled name => rfl
  | unreadable message => rfl

mutual

lemma text_normal : ∀ c : Condition, c.normal.text = c.text
  | atom a negated remarks => text_normal_atom a negated remarks
  | combine op parts negated remarks => by rw [normal, text, text, texts_normals parts]

lemma texts_normals : ∀ cs : List Condition, texts (normals cs) = texts cs
  | [] => rfl
  | c :: cs => by rw [normals, texts, texts, text_normal c, texts_normals cs]

end

/-- A condition and its normal form are printed alike, as an argument too. -/
lemma oneLine_layout_normal (c : Condition) :
    (c.normal.layout true).oneLine = (c.layout true).oneLine := by
  cases c with
  | atom a negated remarks =>
      have hbare : ∀ b n rs, ((atom b n rs).layout true).oneLine = (atom b n rs).text :=
        fun b n rs => oneLine_layout (atom b n rs)
      have htext := text_normal (atom a negated remarks)
      cases a <;> exact (hbare _ _ _).trans (htext.trans (hbare _ _ _).symm)
  | combine op parts negated remarks =>
      have hbrackets : brackets true negated (normals parts) = brackets true negated parts := by
        cases parts <;> rfl
      rw [normal, layout, layout, hbrackets]
      simp only [Layout.Tree.oneLine, partTexts_layouts, texts_normals]

/-- **The text of an argument determines the condition up to its normal form.** -/
theorem squeeze_argument_eq_iff {c d : Condition} (hc : c.isReadable = true)
    (hd : d.isReadable = true) :
    Text.squeeze (c.layout true).oneLine = Text.squeeze (d.layout true).oneLine ↔
      c.normal = d.normal := by
  constructor
  · intro h
    obtain ⟨m, hm⟩ := readArgument_text hc
    obtain ⟨n, hn⟩ := readArgument_text hd
    have hread := hm (max m n) (Nat.le_max_left m n) []
    rw [h, hn (max m n) (Nat.le_max_right m n) []] at hread
    exact (Option.some.inj hread).symm
  · intro h
    rw [← oneLine_layout_normal c, ← oneLine_layout_normal d, h]

end Condition

end EventScript
