import SlimSvg.Cleanup.Values
import SlimSvg.Proofs.Css.Selection
import SlimSvg.Proofs.Tree.Attributes
import SlimSvg.Proofs.Tree.Edits
import SlimSvg.Proofs.Tree.Reading
import SlimSvg.Proofs.Value.Frugal
import SlimSvg.Proofs.Value.Meaning

namespace SlimSvg

/-!
# Rewritten values under style sheets

Selectors look at values as texts, so a value in its shortest form may be selected by
other rules, although it means the same.  A test that tells the old text from the new one
is all that can do this: the tree stays as it is, and no value comes or goes.  Class names
are told apart only if the trimming of their list cuts a name.
-/

theorem Attributes.get?_mapValues (attributes : Attributes) (f : String → AttributeValue → AttributeValue)
    (name : String) : (attributes.mapValues f).get? name = (attributes.get? name).map (f name) := by
  rw [get?, get?, mapValues]
  induction attributes.items with
  | nil => rfl
  | cons a rest inductionHypothesis =>
      rw [List.map_cons, find?_name_cons, find?_name_cons]
      split
      · next same =>
        rw [Option.map_some, Option.map_some, Option.map_some, same]
      · exact inductionHypothesis

namespace Css

variable {f : String → AttributeValue → AttributeValue}

/-! ## Tests that do not notice -/

/-- Whether a test says the same of an attribute and of the attribute with a new value.
Names in a class list are safe if the trimming of the list cuts none of them. -/
def SimpleSelector.overlooks (f : String → AttributeValue → AttributeValue) (a : Attribute) :
    SimpleSelector → Bool
  | .attributeTest t => t.name != a.name || t.accepts (f a.name a.value).text == t.accepts a.value.text
  | .idName id => a.name != "id" || ((f a.name a.value).text == id) == (a.value.text == id)
  | .className _ => a.name != "class" || (Text.words a.value.text).all fun word => decide (Text.Tight word.toList)
  | _ => true

/-- Whether no test of a selector notices new values in a document. -/
def Selector.overlooks (f : String → AttributeValue → AttributeValue) (doc : Document) (s : Selector) : Bool :=
  doc.elements.all fun node => (doc.element? node).all fun e =>
    e.attributes.items.all fun a => s.topTests.all (·.overlooks f a)

/-- Whether new values for classes hold the same names, unless trimming cuts a name. -/
def KeepsClasses (f : String → AttributeValue → AttributeValue) : Prop :=
  ∀ (element text : String), (∀ word ∈ Text.words text, Text.Tight word.toList) →
    ∀ word, word ∈ Text.words (f "class" (.ofAttribute element "class" text)).text ↔ word ∈ Text.words text

theorem SimpleSelector.accepts_mapValues (keeps : KeepsClasses f) {e : Element} (typed : e.Typed)
    {t : SimpleSelector} (overlooked : ∀ a ∈ e.attributes.items, t.overlooks f a = true) :
    t.accepts { e with attributes := e.attributes.mapValues f } = t.accepts e := by
  have textEq (name : String) :
      Element.attributeText? { e with attributes := e.attributes.mapValues f } name =
        (e.attribute? name).map fun v => (f name v).text := by
    rw [Element.attributeText?, Element.attribute?, Attributes.get?_mapValues, Option.map_map]
    rfl
  have noticed {name : String} {v : AttributeValue} (found : e.attribute? name = some v) :
      t.overlooks f ⟨name, v⟩ = true := by
    rcases Option.map_eq_some_iff.mp found with ⟨a, first, rfl⟩
    have named : a.name = name := eq_of_beq (List.find?_some (p := fun a : Attribute => a.name == name) first)
    exact named ▸ overlooked a (List.mem_of_find?_eq_some first)
  cases t with
  | universal => rfl
  | typeName _ => rfl
  | pseudoClass _ _ => rfl
  | pseudoElement _ _ => rfl
  | idName id =>
      rw [accepts, accepts, Element.id?, Element.id?, textEq, Element.attributeText?]
      cases found : e.attribute? "id" with
      | none => rfl
      | some v => exact eq_of_beq (noticed found)
  | attributeTest test =>
      rw [accepts, accepts, Element.anyAttribute?, Element.anyAttribute?, textEq, Element.attributeText?]
      cases found : e.attribute? test.name with
      | none => rfl
      | some v =>
          have same := noticed found
          rw [overlooks, bne_self_eq_false, Bool.false_or, beq_iff_eq] at same
          exact same
  | className name =>
      rw [accepts, accepts, Element.hasClass, Element.hasClass, Element.classes, Element.classes, textEq,
        Element.attributeText?]
      cases found : e.attribute? "class" with
      | none => rfl
      | some v =>
          rcases typed.value_of_attribute? found with ⟨text, rfl⟩
          have tight := noticed found
          rw [overlooks, bne_self_eq_false, Bool.false_or, List.all_eq_true] at tight
          rw [Bool.eq_iff_iff, List.contains_iff_mem, List.contains_iff_mem]
          exact keeps e.name text (fun word listed => of_decide_eq_true (tight word listed)) name

/-- Selectors that notice no new value select the same. -/
theorem Selector.selects_mapValues (keeps : KeepsClasses f) {doc : Document} (grown : doc.Grown Element.Typed)
    {s : Selector} (overlooked : s.overlooks f doc = true) (node : NodeId) :
    s.selects (doc.mapElements fun e => { e with attributes := e.attributes.mapValues f }) node =
      s.selects doc node := by
  refine selects_of_accepts (Document.sameShape_mapElements _) (fun c compound id => ?_) node
  apply Compound.accepts_congr
  rw [Document.element?_mapElements _ grown]
  cases found : doc.element? id with
  | none => exact .inl (ite_self none)
  | some e =>
      by_cases reached : id ∈ doc.elements
      · right
        rw [if_pos reached]
        refine ⟨e, _, rfl, rfl, fun t test => ?_⟩
        refine SimpleSelector.accepts_mapValues keeps (grown.element_fits found) fun a listed => ?_
        have here := List.all_eq_true.mp overlooked id reached
        rw [found] at here
        exact List.all_eq_true.mp (List.all_eq_true.mp here a listed) t (List.mem_flatMap.mpr ⟨c, compound, test⟩)
      · rw [if_neg reached]
        exact .inl rfl

end Css

namespace Cleanup

open Css (Styles Derived KeepsClasses)

/-! ## Colours and values in their shortest form -/

/-- Class lists are no paints. -/
theorem keepsClasses_minifyPaint : KeepsClasses minifyPaint :=
  fun _ _ _ _ => Iff.rfl

/-- The shortest text of a class list has the names of the list, each once. -/
theorem keepsClasses_minifyValue : KeepsClasses minifyValue := by
  intro element text tight word
  have read : ClassList.read (Cached.ofText text : Cached ClassList).minified = ClassList.read text := by
    refine Option.some.inj (Cached.read?_minified_eq (ClassList.lawful fun name listed => ?_))
    rcases ClassList.mem_foldl_add.mp listed with impossible | among
    · exact absurd impossible List.not_mem_nil
    · exact tight name among
  have among (s : String) : word ∈ (ClassList.read s).names ↔ word ∈ Text.words s := by
    rw [ClassList.read, ClassList.mem_foldl_add, or_iff_right List.not_mem_nil]
  change word ∈ Text.words (Cached.ofText text : Cached ClassList).minify.text ↔ _
  rw [← among, ← among, ← read]
  rfl

example : (minifyValue "class" (.ofAttribute "rect" "class" " b  c b")).text = "b c" := by
  decide +kernel

/-- Rewriting values leaves the rules that select an element, those apart that have a test
which tells an old text from a new one. -/
theorem matchingRules_of_rewritten {text : String} {name : Option String} {doc : Document}
    (parsed : Document.read text name = .ok doc) {plugin : Plugin} {f : String → AttributeValue → AttributeValue}
    (rewrites : plugin = convertColors ∧ f = minifyPaint ∨ plugin = minifyValues ∧ f = minifyValue)
    (situation : Situation) (p : Parameters) (s : Styles) :
    ∃ edit outcome, plugin.prepare situation p = some edit ∧ edit doc = .ok outcome ∧
      (∀ r ∈ Derived.rules s.sheets, r.selector.overlooks f doc = true →
        ∀ node, r ∈ s.matchingRules outcome.document node ↔ r ∈ s.matchingRules doc node) ∧
      ((∀ r ∈ Derived.rules s.sheets, r.selector.overlooks f doc = true) →
        ∀ node, s.matchingRules outcome.document node = s.matchingRules doc node) := by
  have keeps : KeepsClasses f := by
    rcases rewrites with ⟨-, rfl⟩ | ⟨-, rfl⟩
    · exact keepsClasses_minifyPaint
    · exact keepsClasses_minifyValue
  have prepared : plugin.prepare situation p = some (mapValues f) := by
    rcases rewrites with ⟨rfl, rfl⟩ | ⟨rfl, rfl⟩ <;> rfl
  have selected := fun (r : Css.Rule) (unnoticed : r.selector.overlooks f doc = true) =>
    Css.Selector.selects_mapValues keeps (Document.grown_of_read parsed) unnoticed
  refine ⟨mapValues f, _, prepared, rfl, ?_, ?_⟩
  · intro r _ unnoticed node
    rw [Styles.matchingRules, Styles.matchingRules, List.mem_filter, List.mem_filter]
    exact and_congr_right fun _ => by rw [← selected r unnoticed node]
  · intro unnoticed node
    exact Styles.matchingRules_congr rfl fun r ruled => selected r (unnoticed r ruled) node

/-- The rule selects the rectangle by its attributes, and it still does when they are in
their shortest form. -/
theorem rule_selects_shorter_values :
    ∃ doc s edit outcome,
      Document.read "<svg><style>[x][fill~=red].b\x7bstroke:red\x7d</style><rect class=' b  c' x=' a' fill=' red'/></svg>"
        none = .ok doc ∧
      Styles.ofDocument doc = .ok s ∧ minifyValues.prepare ⟨1, none, .ofDocument doc⟩ .empty = some edit ∧
      edit doc = .ok outcome ∧ (outcome.document.element? ⟨4⟩).bind (·.attributeText? "class") = some "b c" ∧
      (s.matchingRules doc ⟨4⟩).map (·.selector.write) = ["[x][fill~=red].b"] ∧
      s.matchingRules outcome.document ⟨4⟩ = s.matchingRules doc ⟨4⟩ := by
  have computed : ((Document.read
      "<svg><style>[x][fill~=red].b\x7bstroke:red\x7d</style><rect class=' b  c' x=' a' fill=' red'/></svg>"
      none).toOption.bind fun doc => (Styles.ofDocument doc).toOption.bind fun s =>
        (minifyValues.prepare ⟨1, none, .ofDocument doc⟩ .empty).bind fun edit =>
          (edit doc).toOption.map fun outcome =>
            ((Derived.rules s.sheets).all (fun r => r.selector.overlooks minifyValue doc),
              (outcome.document.element? ⟨4⟩).bind (·.attributeText? "class"),
              (s.matchingRules doc ⟨4⟩).map (·.selector.write))) =
        some (true, some "b c", ["[x][fill~=red].b"]) := by
    decide +kernel
  rcases Option.bind_eq_some_iff.mp computed with ⟨doc, parsed, computed⟩
  rcases Option.bind_eq_some_iff.mp computed with ⟨s, collected, computed⟩
  rcases Option.bind_eq_some_iff.mp computed with ⟨edit, prepared, computed⟩
  rcases Option.map_eq_some_iff.mp computed with ⟨outcome, ran, computed⟩
  rw [toOption_eq_some] at parsed collected ran
  simp only [Prod.mk.injEq, List.all_eq_true] at computed
  rcases computed with ⟨unnoticed, shortened, selected⟩
  rcases matchingRules_of_rewritten parsed (.inr ⟨rfl, rfl⟩) ⟨1, none, .ofDocument doc⟩ .empty s with
    ⟨same, found, preparedSame, edited, -, kept⟩
  rw [Option.some.inj (preparedSame.symm.trans prepared)] at edited
  rw [Except.ok.inj (edited.symm.trans ran)] at kept
  exact ⟨doc, s, edit, outcome, parsed, collected, prepared, ran, shortened, selected, kept unnoticed ⟨4⟩⟩

/-- A rule that tests for the long form of a colour no longer selects the rectangle when
the colour is in its short form. -/
theorem rule_misses_shorter_color :
    ∃ doc s edit outcome,
      Document.read "<svg><style>[fill=\"#ff0000\"]\x7bstroke:red\x7d</style><rect fill=\"#ff0000\"/></svg>" none =
        .ok doc ∧
      Styles.ofDocument doc = .ok s ∧ convertColors.prepare ⟨1, none, .ofDocument doc⟩ .empty = some edit ∧
      edit doc = .ok outcome ∧ (s.matchingRules doc ⟨4⟩).map (·.selector.write) = ["[fill=\"#ff0000\"]"] ∧
      s.matchingRules outcome.document ⟨4⟩ = [] := by
  have computed : ((Document.read
      "<svg><style>[fill=\"#ff0000\"]\x7bstroke:red\x7d</style><rect fill=\"#ff0000\"/></svg>"
      none).toOption.bind fun doc => (Styles.ofDocument doc).toOption.bind fun s =>
        (convertColors.prepare ⟨1, none, .ofDocument doc⟩ .empty).bind fun edit =>
          (edit doc).toOption.map fun outcome =>
            ((s.matchingRules doc ⟨4⟩).map (·.selector.write),
              (s.matchingRules outcome.document ⟨4⟩).isEmpty)) = some (["[fill=\"#ff0000\"]"], true) := by
    decide +kernel
  rcases Option.bind_eq_some_iff.mp computed with ⟨doc, parsed, computed⟩
  rcases Option.bind_eq_some_iff.mp computed with ⟨s, collected, computed⟩
  rcases Option.bind_eq_some_iff.mp computed with ⟨edit, prepared, computed⟩
  rcases Option.map_eq_some_iff.mp computed with ⟨outcome, ran, computed⟩
  rw [toOption_eq_some] at parsed collected ran
  rcases Prod.mk.inj computed with ⟨before, afterwards⟩
  exact ⟨doc, s, edit, outcome, parsed, collected, prepared, ran, before, List.isEmpty_iff.mp afterwards⟩

end Cleanup
end SlimSvg
