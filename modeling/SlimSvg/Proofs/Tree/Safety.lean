import SlimSvg.Proofs.Tree.Pruning
import SlimSvg.Proofs.Tree.Visit

namespace SlimSvg

/-!
# Visits that cannot fail

A visitor that never gives up, and that leaves every node behind its parent in the
table, is never led deeper than the table is long.  Its visits succeed, and what each
of its calls keeps is kept by the whole visit.
-/

namespace Visit

variable {σ α β : Type} {I J K : Scene σ → Prop}

/-- Whether a step succeeds on all scenes with one property and leaves another one. -/
def Leads (visit : Visit σ α) (I J : Scene σ → Prop) : Prop :=
  ∀ scene, I scene → ∃ value after, visit.Gives scene value after ∧ J after

theorem leads_pure (value : α) : Leads (pure value : Visit σ α) I I :=
  fun scene holds => ⟨value, scene, gives_pure value scene, holds⟩

theorem Leads.bind {visit : Visit σ α} {next : α → Visit σ β} (first : visit.Leads I J)
    (second : ∀ value, (next value).Leads J K) : (visit >>= next).Leads I K := by
  intro scene holds
  rcases first scene holds with ⟨value, after, gives, later⟩
  rcases second value after later with ⟨result, last, givesNext, finally_⟩
  exact ⟨result, last, gives.bind givesNext, finally_⟩

/-- A step may look at the document before it goes on. -/
theorem leads_document_bind {next : Document → Visit σ β}
    (second : ∀ doc, (next doc).Leads (fun scene => I scene ∧ scene.document = doc) K) :
    (document >>= next).Leads I K := by
  intro scene holds
  rcases second scene.document scene ⟨holds, rfl⟩ with ⟨result, last, gives, finally_⟩
  exact ⟨result, last, (gives_document scene).bind gives, finally_⟩

theorem leads_state_bind {next : σ → Visit σ β}
    (second : ∀ state, (next state).Leads (fun scene => I scene ∧ scene.state = state) K) :
    (state >>= next).Leads I K := by
  intro scene holds
  rcases second scene.state scene ⟨holds, rfl⟩ with ⟨result, last, gives, finally_⟩
  exact ⟨result, last, (gives_state scene).bind gives, finally_⟩

theorem leads_editDocument {f : Document → Document}
    (edited : ∀ scene, I scene → J { scene with document := f scene.document }) :
    (editDocument f).Leads I J :=
  fun scene holds => ⟨(), _, gives_editDocument f scene, edited scene holds⟩

theorem leads_editState {f : σ → σ}
    (edited : ∀ scene, I scene → J { scene with state := f scene.state }) :
    (editState f).Leads I J :=
  fun scene holds => ⟨(), _, gives_editState f scene, edited scene holds⟩

theorem Leads.of_imp {visit : Visit σ α} (leads : visit.Leads I J) (before : ∀ scene, K scene → I scene) :
    visit.Leads K J :=
  fun scene holds => leads scene (before scene holds)

end Visit

namespace Visitor

variable {σ : Type} {P : Element → Prop} {I J : Scene σ → Prop} {v : Visitor σ} {size : Nat}

/-- Whether every call of a visitor succeeds and keeps a property of scenes, which says
that the document is a tree with a table of a certain length.  The last call may leave
another property. -/
structure Safe (P : Element → Prop) (size : Nat) (I J : Scene σ → Prop) (v : Visitor σ) : Prop where
  grown : ∀ {scene}, I scene → scene.document.Grown P
  size_eq : ∀ {scene}, I scene → scene.document.nodes.size = size
  enterRoot : v.enterRoot.Leads I I
  exitRoot : v.exitRoot.Leads I J
  enter : ∀ node parent ancestors, (ancestors = [] ↔ parent = Document.root) →
    (v.enter node ancestors).Leads (fun scene => I scene ∧ scene.document.parent? node = some parent) I
  exit : ∀ node ancestors, (v.exit node ancestors).Leads I I
  text : ∀ node parent, (v.text node parent).Leads (fun scene => I scene ∧ ¬ scene.document.isElement node) I
  comment : ∀ node parent,
    (v.comment node parent).Leads (fun scene => I scene ∧ ¬ scene.document.isElement node) I
  instruction : ∀ node parent,
    (v.instruction node parent).Leads (fun scene => I scene ∧ ¬ scene.document.isElement node) I
  doctype : ∀ node parent,
    (v.doctype node parent).Leads (fun scene => I scene ∧ ¬ scene.document.isElement node) I

namespace Safe

/-- A visitor that does nothing at all. -/
theorem idle (grown : ∀ {scene}, I scene → scene.document.Grown P)
    (size_eq : ∀ {scene}, I scene → scene.document.nodes.size = size) :
    Safe P size I I ({} : Visitor σ) where
  grown := grown
  size_eq := size_eq
  enterRoot := Visit.leads_pure _
  exitRoot := Visit.leads_pure _
  enter _ _ _ _ := (Visit.leads_pure _).of_imp fun _ both => both.1
  exit _ _ := Visit.leads_pure _
  text _ _ := (Visit.leads_pure _).of_imp fun _ both => both.1
  comment _ _ := (Visit.leads_pure _).of_imp fun _ both => both.1
  instruction _ _ := (Visit.leads_pure _).of_imp fun _ both => both.1
  doctype _ _ := (Visit.leads_pure _).of_imp fun _ both => both.1

/-- Whether an element that is visited has its place, and is found near enough to the
end of the table. -/
def Placed (size depth : Nat) (node parent : NodeId) (doc : Document) : Prop :=
  doc.parent? node = some parent ∧ size ≤ node.index + depth

theorem leads_visitChildren (safe : Safe P size I J v) (depth : Nat) {parent : NodeId}
    {ancestors : List NodeId} {visitElement : (node parent : NodeId) → List NodeId → Visit σ Unit}
    (near : ∀ node : NodeId, parent.index < node.index → size ≤ node.index + depth)
    (elements : ∀ node, (visitElement node parent ancestors).Leads
      (fun scene => I scene ∧ Placed size depth node parent scene.document) I)
    (children : List NodeId) :
    (visitChildren v visitElement parent ancestors children).Leads I I := by
  induction children with
  | nil => exact Visit.leads_pure ()
  | cons child rest inductionHypothesis =>
      rw [visitChildren]
      refine Visit.leads_document_bind fun doc => ?_
      have later : ∀ {visit : Visit σ Unit}, visit.Leads (fun scene => I scene ∧ scene.document = doc) I →
          (visit >>= fun _ => visitChildren v visitElement parent ancestors rest).Leads
            (fun scene => I scene ∧ scene.document = doc) I :=
        fun here => here.bind fun _ => inductionHypothesis
      have passed : (visitChildren v visitElement parent ancestors rest).Leads
          (fun scene => I scene ∧ scene.document = doc) I :=
        inductionHypothesis.of_imp fun _ both => both.1
      have leaf : ∀ {visit : Visit σ Unit}, doc.isElement child = false →
          visit.Leads (fun scene => I scene ∧ ¬ scene.document.isElement child) I →
            visit.Leads (fun scene => I scene ∧ scene.document = doc) I := by
        intro visit other leads
        refine leads.of_imp ?_
        rintro scene ⟨holds, same⟩
        rw [same, other]
        exact ⟨holds, Bool.false_ne_true⟩
      dsimp only
      split
      · next linked =>
        cases held : doc.content child with
        | element e =>
            refine later ((elements child).of_imp ?_)
            rintro scene ⟨holds, same⟩
            have here : scene.document.parent? child = some parent := same ▸ eq_of_beq linked
            exact ⟨holds, here, near child ((safe.grown holds).parent_earlier here)⟩
        | text s => exact later (leaf (by rw [Document.isElement, held]; rfl) (safe.text child parent))
        | comment s => exact later (leaf (by rw [Document.isElement, held]; rfl) (safe.comment child parent))
        | instruction name value =>
            exact later (leaf (by rw [Document.isElement, held]; rfl) (safe.instruction child parent))
        | doctype s => exact later (leaf (by rw [Document.isElement, held]; rfl) (safe.doctype child parent))
        | root => exact passed
      · exact passed

theorem leads_visitElement (safe : Safe P size I J v) (depth : Nat) (node parent : NodeId)
    (ancestors : List NodeId) (outermost : ancestors = [] ↔ parent = Document.root) :
    (visitElement v depth node parent ancestors).Leads
      (fun scene => I scene ∧ Placed size depth node parent scene.document) I := by
  induction depth generalizing node parent ancestors with
  | zero =>
      rintro scene ⟨holds, linked, near⟩
      have inside := Document.index_lt_of_parent? linked
      rw [safe.size_eq holds] at inside
      exact absurd inside (Nat.not_lt.mpr near)
  | succ depth inductionHypothesis =>
      rintro scene ⟨holds, linked, near⟩
      have notRoot : node ≠ Document.root := by
        intro atRoot
        rw [atRoot, (safe.grown holds).parent?_root] at linked
        cases linked
      have inner : ancestors ++ [node] = [] ↔ node = Document.root :=
        ⟨fun none => absurd none (List.append_ne_nil_of_right_ne_nil _ (List.cons_ne_nil _ _)),
          fun atRoot => absurd atRoot notRoot⟩
      have below : ∀ children, (visitChildren v (visitElement v depth) node (ancestors ++ [node])
          children).Leads I I := by
        apply safe.leads_visitChildren
        · intro child later
          show size ≤ child.index + depth
          omega
        · exact fun child => inductionHypothesis child node (ancestors ++ [node]) inner
      have whole : (visitElement v (depth + 1) node parent ancestors).Leads
          (fun scene => I scene ∧ scene.document.parent? node = some parent) I := by
        rw [visitElement]
        refine (safe.enter node parent ancestors outermost).bind fun flow => ?_
        refine Visit.leads_document_bind fun doc => ?_
        dsimp only
        split
        · exact ((below _).of_imp fun _ both => both.1).bind fun _ => safe.exit node ancestors
        · exact (safe.exit node ancestors).of_imp fun _ both => both.1
      exact whole scene ⟨holds, linked⟩

/-- The visit of a whole document succeeds. -/
theorem run_succeeds (safe : Safe P size I J v) {start : σ} {doc : Document} (holds : I ⟨start, doc⟩) :
    ∃ after, v.run ⟨start, doc⟩ = (.ok (), after) ∧ J after := by
  have below : ∀ children, (visitChildren v (visitElement v (doc.nodes.size + extraDepth))
      Document.root [] children).Leads I I := by
    apply safe.leads_visitChildren (doc.nodes.size + extraDepth)
    · intro child _
      rw [← safe.size_eq holds]
      show doc.nodes.size ≤ child.index + (doc.nodes.size + extraDepth)
      omega
    · exact fun child => safe.leads_visitElement _ child Document.root [] (iff_of_true rfl rfl)
  have whole : (visitRoot v (doc.nodes.size + extraDepth)).Leads I J := by
    rw [visitRoot]
    refine safe.enterRoot.bind fun flow => ?_
    dsimp only
    split
    · refine Visit.leads_document_bind fun current => ?_
      exact ((below _).of_imp fun _ both => both.1).bind fun _ => safe.exitRoot
    · exact safe.exitRoot
  rcases whole ⟨start, doc⟩ holds with ⟨value, after, gives, still⟩
  exact ⟨after, gives, still⟩

end Safe

end Visitor

end SlimSvg
