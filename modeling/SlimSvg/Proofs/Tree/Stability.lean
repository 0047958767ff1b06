import SlimSvg.Proofs.Attempt
import SlimSvg.Proofs.Tree.Rebuilding
import SlimSvg.Proofs.Tree.Surroundings

namespace SlimSvg

/-!
# Writing is stable

The text of a document is read as the same branches, and so written again as the same text,
if it is accepted and nothing in it is normalized away: the declarations are found where they
stand, and all elements and texts are read as they are.  Each of these conditions excludes
something that is written in one way and read in another.
-/

namespace Layout

/-! ## Faithful layouts -/

/-- Whether everything that can be read is read as it was, if no lines are broken. -/
def isFaithful (l : Layout) : Bool :=
  l.declaration.all (fun d => !Text.hasPiece "?>".toList d.text)
    && !Text.hasPiece "<!DOCTYPE".toList l.opening
    && l.doctype.all (fun (d, _) => d.nodes.isEmpty && Text.trimChars d.text == d.text
      && Prologue.untilEnd? 0 none (d.text ++ ['>']) == some d.text)
    && l.rootBranch.isFaithful false []

variable {l : Layout}

theorem isRecoverable_of_isFaithful (faithful : l.isFaithful = true) : l.isRecoverable = true := by
  rw [isFaithful, Bool.and_eq_true, Bool.and_eq_true, Bool.and_eq_true] at faithful
  rcases faithful with ⟨⟨⟨-, absent⟩, doctype⟩, -⟩
  rw [isRecoverable, absent, Bool.true_and]
  cases which : l.doctype with
  | none => rfl
  | some both =>
      rw [which, Option.all_some, Bool.and_eq_true] at doctype
      exact doctype.2

/-! ## What stands around the root element -/

theorem declarationAgain_eq (writable : l.isWritable = true) (faithful : l.isFaithful = true) :
    l.declarationAgain = l.declarationBranches := by
  rw [isFaithful, Bool.and_eq_true, Bool.and_eq_true, Bool.and_eq_true] at faithful
  have readable := (isWritable_iff.mp writable).1
  have free := faithful.1.1.1
  rw [declarationAgain, declarationBranches]
  cases which : l.declaration with
  | none => rfl
  | some d =>
      rw [which, Option.all_some] at readable free
      rw [Bool.not_eq_true'] at free
      have found := Prologue.declaration?_text readable free []
      rw [List.append_nil] at found
      rw [Option.bind_some, found]
      rfl

theorem doctypeAgain_eq (faithful : l.isFaithful = true) : l.doctypeAgain = l.doctypeBranches := by
  rw [isFaithful, Bool.and_eq_true, Bool.and_eq_true, Bool.and_eq_true] at faithful
  have doctype := faithful.1.2
  rw [doctypeAgain, doctypeBranches]
  cases which : l.doctype with
  | none => rfl
  | some both =>
      rcases both with ⟨d, remarks⟩
      rw [which, Option.all_some, Bool.and_eq_true, Bool.and_eq_true, List.isEmpty_iff, beq_iff_eq] at doctype
      rw [Option.elim_some, Option.elim_some]
      dsimp only
      rw [doctype.1.1, doctype.1.2]
      rfl

/-- Around the root element everything is read as it was. -/
theorem surround_rootBranch (writable : l.isWritable = true) (faithful : l.isFaithful = true) :
    l.surround [l.rootBranch] = l.branches := by
  rw [surround, declarationAgain_eq writable faithful, doctypeAgain_eq faithful]
  rfl

/-! ## The root element -/

theorem branch_root (f : (l.manuscript {}).Findings (Branch.Rereads {} (l.root.scope []) l.content))
    (faithful : l.isFaithful = true) (fits : l.rootBranch.Fits Element.Typed) :
    Reading.branch false [] (Xml.Build.Reads.elementOf f.tag f.kids) = [l.rootBranch] := by
  rw [isFaithful, Bool.and_eq_true] at faithful
  have rereads := (Branch.Rereads.element f.cameFrom f.holds).branches rfl ⟨fits, True.intro⟩ false
    (by rw [← rootBranch, Branch.areFaithful, faithful.2]; rfl)
  have read := rereads.2
  rw [List.map_singleton, Reading.branches, Reading.branches, List.append_nil] at read
  exact read

end Layout

/-! ## Stability -/

namespace Branch

theorem fits_of_mem {P : Element → Prop} {bs : List Branch} (fit : AllFit P bs) : ∀ b ∈ bs, b.Fits P := by
  induction bs with
  | nil => nofun
  | cons c rest inductionHypothesis =>
      intro b listed
      rcases List.mem_cons.mp listed with rfl | later
      · exact fit.1
      · exact inductionHypothesis fit.2 b later

end Branch

namespace Document

/-- The elements of a document that was read are typed. -/
theorem allFit_branches_of_read {text : String} {name : Option String} {doc : Document}
    (parsed : Document.read text name = .ok doc) : Branch.AllFit Element.Typed doc.branches := by
  rw [read] at parsed
  cases reading : Xml.read text.toList with
  | error fault => rw [reading] at parsed; cases parsed
  | ok placed =>
      rw [reading] at parsed
      rw [← Except.ok.inj parsed, branches_ofBranches]
      exact Reading.allFit_typed_placedBranches text.toList placed

/-- The text of a faithful layout is read as its branches. -/
theorem exists_read_text {l : Layout} (writable : l.isWritable = true) (faithful : l.isFaithful = true)
    (fits : l.rootBranch.Fits Element.Typed) (name : Option String) :
    ∃ doc, Document.read (String.ofList (l.manuscript {}).text) name = .ok doc ∧ doc.branches = l.branches := by
  rcases Xml.read_text (l.readable_manuscript {} writable) (l.reads_inside {} writable) (l.rereads_nothing {}) with
    ⟨f, reads⟩
  refine ⟨ofBranches ((Reading.placedBranches (l.manuscript {}).text f.placed).flatMap (·.2)), ?_, ?_⟩
  · rw [read, String.toList_ofList, reads]
  · rw [branches_ofBranches, Layout.flatMap_placedBranches f writable (Layout.isRecoverable_of_isFaithful faithful),
      Layout.branch_root f faithful fits, Layout.surround_rootBranch writable faithful]

/-- What was written of a document that is laid out well and faithful is read as the same
branches, and so written as the same text. -/
theorem written_is_stable {text : String} {name : Option String} {doc : Document}
    (parsed : Document.read text name = .ok doc) {l : Layout} (laidOut : doc.branches = l.branches)
    (writable : l.isWritable = true) (faithful : l.isFaithful = true) (nameAgain : Option String) :
    ∃ again, Document.read (doc.written {}) nameAgain = .ok again ∧
      again.branches = doc.branches ∧ again.written {} = doc.written {} := by
  have fits : l.rootBranch.Fits Element.Typed := by
    apply Branch.fits_of_mem (allFit_branches_of_read parsed)
    rw [laidOut, Layout.branches]
    simp only [List.mem_append, List.mem_cons, true_or, or_true]
  have text : doc.written {} = String.ofList (l.manuscript {}).text := by
    rw [← l.toList_written {} writable laidOut, String.ofList_toList]
  rcases exists_read_text writable faithful fits nameAgain with ⟨again, read, same⟩
  refine ⟨again, ?_, same.trans laidOut.symm, ?_⟩
  · rw [text]
    exact read
  · rw [written, written, same, laidOut]

/-- A document with both declarations, a remark, a prefix and text in another language is
written as it was. -/
theorem declared_document_is_stable :
    ∃ doc again, Document.read
        ("<?xml version=\"1.0\"?><!--a--><!DOCTYPE svg [<!ENTITY e \"1\">]>" ++
          "<svg xmlns=\"http://www.w3.org/2000/svg\" xmlns:x=\"y\" width=\"1\" x:z=\"&lt;\">" ++
            "<style>a>b\x7b\x7d</style><x:g>&amp;</x:g></svg>") none = .ok doc ∧
      Document.read (doc.written {}) none = .ok again ∧ again.written {} = doc.written {} := by
  let l : Layout :=
    { declaration := some ⟨⟨'"', "1.0".toList⟩, none, none⟩
      before := [.comment ['a']]
      doctype := some (⟨"svg".toList, none,
        some ⟨[' '], [⟨[], .entity [' '] ['e'] ⟨[' '], ⟨'"', ['1']⟩⟩ []⟩], [], []⟩⟩, [])
      root :=
        { name := "svg", pre := none, uri := none
          attributes := ⟨[⟨"xmlns", .ofAttribute "svg" "xmlns" "http://www.w3.org/2000/svg"⟩,
            ⟨"width", .ofAttribute "svg" "width" "1"⟩]⟩
          foreign := [⟨some "xmlns", "x", some Vocabulary.xmlnsNamespace, "y"⟩, ⟨some "x", "z", some "y", "<"⟩] }
      content := [.node (.element (.ofName "style")) [.node (.text "a>b\x7b\x7d") []],
        .node (.element { Element.ofName "g" with pre := some "x", uri := some "y" }) [.node (.text "&") []]]
      after := [] }
  have writable : l.isWritable = true := by decide +kernel
  have faithful : l.isFaithful = true := by decide +kernel
  have text : String.ofList (l.manuscript {}).text =
      "<?xml version=\"1.0\"?><!--a--><!DOCTYPE svg [<!ENTITY e \"1\">]>" ++
        "<svg xmlns=\"http://www.w3.org/2000/svg\" xmlns:x=\"y\" width=\"1\" x:z=\"&lt;\">" ++
          "<style>a>b\x7b\x7d</style><x:g>&amp;</x:g></svg>" := by
    decide +kernel
  have bare : ∀ name pre uri, (⟨name, pre, uri, .empty, []⟩ : Element).Typed :=
    fun _ _ _ => ⟨List.nodup_nil, nofun⟩
  have root : l.root.Typed := by
    refine ⟨by decide, ?_⟩
    intro a listed
    rcases List.mem_pair.mp listed with rfl | rfl <;> exact ⟨_, rfl⟩
  have typed : l.rootBranch.Fits Element.Typed := by
    refine ⟨?_, nofun, ⟨?_, nofun, ⟨nofun, fun _ => rfl, True.intro⟩, True.intro⟩,
      ⟨?_, nofun, ⟨nofun, fun _ => rfl, True.intro⟩, True.intro⟩, True.intro⟩
    · rintro _ ⟨⟩
      exact root
    · rintro _ ⟨⟩
      exact bare _ _ _
    · rintro _ ⟨⟩
      exact bare _ _ _
  rcases exists_read_text writable faithful typed none with ⟨doc, parsed, laidOut⟩
  rw [text] at parsed
  rcases written_is_stable parsed laidOut writable faithful none with ⟨again, parsedAgain, -, stable⟩
  exact ⟨doc, again, parsed, parsedAgain, stable⟩

/-- A reference to a line feed is written as a line feed, which is read as a space. -/
theorem line_feed_becomes_space :
    ∃ doc again, Document.read "<svg a=\"&#10;\"/>" none = .ok doc ∧ doc.written {} = "<svg a=\"\n\"/>" ∧
      Document.read (doc.written {}) none = .ok again ∧ again.written {} = "<svg a=\" \"/>" ∧
      again.written {} ≠ doc.written {} := by
  have first : ((Document.read "<svg a=\"&#10;\"/>" none).toOption.map (·.written {})) = some "<svg a=\"\n\"/>" := by
    decide +kernel
  have second : ((Document.read "<svg a=\"\n\"/>" none).toOption.map (·.written {})) = some "<svg a=\" \"/>" := by
    decide +kernel
  rcases Option.map_eq_some_iff.mp first with ⟨doc, parsed, text⟩
  rcases Option.map_eq_some_iff.mp second with ⟨again, parsedAgain, textAgain⟩
  rw [toOption_eq_some] at parsed parsedAgain
  refine ⟨doc, again, parsed, text, ?_, textAgain, ?_⟩
  · rw [text]
    exact parsedAgain
  · rw [text, textAgain]
    decide

end Document

end SlimSvg
