import SlimSvg.Proofs.Css.Cascade
import SlimSvg.Proofs.Css.Memory

namespace SlimSvg
namespace Css

/-!
# Questions in any order

Whoever asks for styles hands a memory from one question to the next.  A memory is good if
every style in it says of every property what would be said without any memory.  A good
memory cannot be seen in an answer, and every answer leaves a good memory behind; so the
answers to any questions about one document are those that each question gets alone.

Two styles are compared by what they say of every property.  The order in which they hold
the properties does not count, neither in the memory nor in an answer.
-/

namespace Styles

/-! ## Questions -/

/-- A question about the styles of a document: what a node has, or what the children of
the last one of some ancestors inherit. -/
inductive Question where
  | style (node : NodeId)
  | handedDown (ancestors : List NodeId)

/-- The answer to a question, and the memory behind it. -/
def answer (s : Styles) (doc : Document) (memo : Memo) : Question → ComputedStyle × Memo
  | .style node => s.computedStyle doc node memo
  | .handedDown ancestors => s.parentStyle doc ancestors memo

/-- The answers to some questions, each with the memory that the one before it left, and
the memory behind them. -/
def answers (s : Styles) (doc : Document) : Memo → List Question → List ComputedStyle × Memo
  | memo, [] => ([], memo)
  | memo, question :: rest =>
    let (first, memo) := s.answer doc memo question
    let (others, memo) := answers s doc memo rest
    (first :: others, memo)

/-- Whether every style in a memory says what is said of its node without a memory. -/
def Memo.Good (s : Styles) (doc : Document) (memo : Memo) : Prop :=
  ∀ node style, memo.lookup node = some style → style.get? = (s.computedStyle doc node []).1.get?

variable {P : Element → Prop} {s : Styles} {doc : Document} {memo : Memo}

/-! ## What an answer says -/

/-- What is inherited depends on what the parent says of every property. -/
theorem get?_inheritFrom_congr (s : Styles) (doc : Document) (node : NodeId) {a b : ComputedStyle}
    (same : a.get? = b.get?) :
    ((s.ownStyle doc node).inheritFrom a).get? = ((s.ownStyle doc node).inheritFrom b).get? := by
  funext name
  rw [ComputedStyle.get?_inheritFrom (s.distinct_ownStyle doc node),
    ComputedStyle.get?_inheritFrom (s.distinct_ownStyle doc node), same]

/-- Without a memory, a node has what it sets itself and what its ancestors hand down. -/
theorem computedStyle_nil (grown : doc.Grown P) (s : Styles) (node : NodeId) :
    (s.computedStyle doc node []).1 = inherited (s.ownStyle doc) (node :: doc.elementAncestors node) :=
  (computedStyle_sound grown (Memo.Built.empty.sound grown) node).1

theorem Memo.Good.chainStyle (grown : doc.Grown P) (good : Memo.Good s doc memo) {nodes : List NodeId}
    (lineage : IsLineage doc nodes) :
    (s.chainStyle doc nodes memo).1.get? = (inherited (s.ownStyle doc) nodes).get? ∧
      Memo.Good s doc (s.chainStyle doc nodes memo).2 := by
  have remembers : ∀ node style, memo.lookup node = some style →
      style.get? = (inherited (s.ownStyle doc) (node :: doc.elementAncestors node)).get? := by
    intro node style found
    rw [good node style found, computedStyle_nil grown]
  obtain ⟨answered, stays⟩ := @chainStyle_related P s doc memo grown (fun a b => a.get? = b.get?) rfl
    (fun node _ _ same => s.get?_inheritFrom_congr doc node same) remembers nodes lineage
  refine ⟨answered, ?_⟩
  intro node style found
  rw [stays node style found, computedStyle_nil grown]

/-- A good memory changes no answer and stays good. -/
theorem Memo.Good.answer (grown : doc.Grown P) (good : Memo.Good s doc memo) (question : Question) :
    (s.answer doc memo question).1.get? = (s.answer doc [] question).1.get? ∧
      Memo.Good s doc (s.answer doc memo question).2 := by
  have empty : Memo.Good s doc [] := nofun
  cases question with
  | style node =>
      have lineage := isLineage_elementAncestors grown node
      obtain ⟨handedDown, stays⟩ := good.chainStyle grown lineage
      refine ⟨?_, stays⟩
      exact s.get?_inheritFrom_congr doc node (handedDown.trans (empty.chainStyle grown lineage).1.symm)
  | handedDown ancestors =>
      rw [Styles.answer, Styles.answer, parentStyle, parentStyle]
      cases ancestors.getLast? with
      | none => exact ⟨rfl, good⟩
      | some parent =>
          have lineage : IsLineage doc (parent :: doc.elementAncestors parent) := rfl
          obtain ⟨handedDown, stays⟩ := good.chainStyle grown lineage
          exact ⟨handedDown.trans (empty.chainStyle grown lineage).1.symm, stays⟩

/-- Each of some questions is answered as if it were the only one. -/
theorem Memo.Good.answers (grown : doc.Grown P) (good : Memo.Good s doc memo) (questions : List Question) :
    (s.answers doc memo questions).1.map (·.get?) = questions.map (fun q => (s.answer doc [] q).1.get?) ∧
      Memo.Good s doc (s.answers doc memo questions).2 := by
  induction questions generalizing memo with
  | nil => exact ⟨rfl, good⟩
  | cons question rest inductionHypothesis =>
      obtain ⟨first, stays⟩ := good.answer grown question
      obtain ⟨others, left⟩ := inductionHypothesis stays
      refine ⟨?_, left⟩
      rw [Styles.answers, List.map_cons, List.map_cons, first, others]

/-- The style of a node is what it sets itself with what its ancestors hand down, whatever
good memories the two answers came from. -/
theorem get?_computedStyle_of_good (grown : doc.Grown P) (good : Memo.Good s doc memo) {other : Memo}
    (otherGood : Memo.Good s doc other) (node : NodeId) :
    (s.computedStyle doc node memo).1.get? =
      ((s.ownStyle doc node).inheritFrom
        (s.parentStyle doc (doc.elementAncestors node).reverse other).1).get? := by
  have lineage := isLineage_elementAncestors grown node
  rw [parentStyle_elementAncestors s grown node other]
  exact s.get?_inheritFrom_congr doc node
    ((good.chainStyle grown lineage).1.trans (otherGood.chainStyle grown lineage).1.symm)

/-! ## The memory cannot be seen -/

/-- In a document that was read, a good memory changes the answer to no question and stays
good.  So some questions get the answers that each of them gets alone, and in another order
they get the same answers in that order; and the style of a node is what it sets itself
together with what its line of ancestors hands down. -/
theorem answers_do_not_show_the_memory {text : String} {title : Option String}
    (parsed : Document.read text title = .ok doc) (s : Styles) (good : Memo.Good s doc memo) :
    (∀ node, (s.computedStyle doc node memo).1.get? = (s.computedStyle doc node []).1.get? ∧
        Memo.Good s doc (s.computedStyle doc node memo).2) ∧
      (∀ questions : List Question,
        (s.answers doc memo questions).1.map (·.get?) = questions.map (fun q => (s.answer doc [] q).1.get?) ∧
          Memo.Good s doc (s.answers doc memo questions).2) ∧
      (∀ questions others : List Question, questions.Perm others →
        (questions.zip ((s.answers doc memo questions).1.map (·.get?))).Perm
          (others.zip ((s.answers doc memo others).1.map (·.get?)))) ∧
      ∀ node, ∀ other : Memo, Memo.Good s doc other →
        (s.computedStyle doc node memo).1.get? =
          ((s.ownStyle doc node).inheritFrom
            (s.parentStyle doc (doc.elementAncestors node).reverse other).1).get? := by
  have grown := Document.grown_of_read parsed
  refine ⟨fun node => good.answer grown (.style node), good.answers grown, ?_,
    fun node other otherGood => get?_computedStyle_of_good grown good otherGood node⟩
  intro questions others permuted
  have paired (asked : List Question) : asked.zip ((s.answers doc memo asked).1.map (·.get?)) =
      asked.map fun q => (q, (s.answer doc [] q).1.get?) := by
    rw [(good.answers grown asked).1, ← List.map_prod_left_eq_zip]
  rw [paired, paired]
  exact permuted.map _

/-- A group that asks for the fill of its parent gets it from a memory that holds the
properties of the parent in another order. -/
theorem remembered_parent_hands_down :
    let remembered : ComputedStyle := ⟨[("fill", .known "red"), ("opacity", .known "0")]⟩
    ∃ doc s, Document.read "<svg fill='red' opacity='0'><g fill='inherit'><a/></g></svg>" none = .ok doc ∧
      ofDocument doc = .ok s ∧ Memo.Good s doc [(⟨1⟩, remembered)] ∧
      (s.computedStyle doc ⟨1⟩ []).1 ≠ remembered ∧
      (s.answers doc [(⟨1⟩, remembered)] [.style ⟨3⟩, .handedDown [⟨1⟩, ⟨2⟩], .style ⟨1⟩]).1.map (·.get?) =
        [Question.style ⟨3⟩, .handedDown [⟨1⟩, ⟨2⟩], .style ⟨1⟩].map (fun q => (s.answer doc [] q).1.get?) ∧
      (s.computedStyle doc ⟨3⟩ [(⟨1⟩, remembered)]).1.get? "fill" = some (.known "red") := by
  intro remembered
  have computed : (Document.read "<svg fill='red' opacity='0'><g fill='inherit'><a/></g></svg>" none).toOption.bind
      (fun doc => (ofDocument doc).toOption.map fun s =>
        ((s.computedStyle doc ⟨1⟩ []).1, (s.computedStyle doc ⟨3⟩ []).1.get? "fill")) =
        some (⟨[("opacity", .known "0"), ("fill", .known "red")]⟩, some (.known "red")) := by
    decide +kernel
  obtain ⟨doc, parsed, computed⟩ := Option.bind_eq_some_iff.mp computed
  obtain ⟨s, collected, computed⟩ := Option.map_eq_some_iff.mp computed
  obtain ⟨alone, red⟩ := Prod.mk.inj computed
  rw [toOption_eq_some] at parsed collected
  have good : Memo.Good s doc [(⟨1⟩, remembered)] := by
    intro node style found
    obtain ⟨rfl, rfl⟩ : node = ⟨1⟩ ∧ style = remembered := by
      rw [List.lookup_cons] at found
      split at found
      · next same => exact ⟨eq_of_beq same, (Option.some.inj found).symm⟩
      · cases found
    rw [alone]
    funext name
    by_cases fill : name = "fill"
    · rw [fill]
      decide
    · rw [ComputedStyle.get?, ComputedStyle.get?, lookup_cons_of_ne fill]
      by_cases opacity : name = "opacity"
      · rw [opacity]
        decide
      · rw [lookup_cons_of_ne opacity, lookup_cons_of_ne opacity, lookup_cons_of_ne fill]
  obtain ⟨styles, several, -, -⟩ := answers_do_not_show_the_memory parsed s good
  refine ⟨doc, s, parsed, collected, good, ?_, (several _).1, ?_⟩
  · rw [alone]
    decide
  · rw [(styles ⟨3⟩).1, red]

end Styles

end Css
end SlimSvg
