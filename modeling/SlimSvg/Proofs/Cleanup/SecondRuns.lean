import Mathlib.Data.Bool.AllAny
import SlimSvg.Cleanup.Values
import SlimSvg.Proofs.Tree.Reading
import SlimSvg.Proofs.Value.Frugal
import SlimSvg.Proofs.Value.SteadyValues

namespace SlimSvg

/-!
# Second runs

A run over the values of a document leaves texts that are read again before the next run.
The next run leaves them as they are if the values are steady.
-/

namespace Attributes

/-- The attributes of an element as they are read again from their texts. -/
def readAgain (attributes : Attributes) (element : String) : Attributes :=
  attributes.mapValues fun name value => .ofAttribute element name value.text

def texts (attributes : Attributes) : List (String × String) :=
  attributes.items.map fun a => (a.name, a.value.text)

end Attributes

namespace Cleanup

open AttributeValue

/-- Whether a second run leaves the texts that the first run left, for each attribute of an
element. -/
def IsStable (f : String → AttributeValue → AttributeValue) (element : String) (attributes : Attributes) : Prop :=
  (((attributes.mapValues f).readAgain element).mapValues f).texts = (attributes.mapValues f).texts

theorem isStable_of_values {f : String → AttributeValue → AttributeValue} {element : String} {attributes : Attributes}
    (each : ∀ a ∈ attributes.items,
      (f a.name (ofAttribute element a.name (f a.name a.value).text)).text = (f a.name a.value).text) :
    IsStable f element attributes := by
  rw [IsStable, Attributes.texts, Attributes.texts, Attributes.readAgain, Attributes.mapValues, Attributes.mapValues,
    Attributes.mapValues, List.map_map, List.map_map, List.map_map, List.map_map]
  refine List.map_congr_left fun a listed => ?_
  exact congrArg (a.name, ·) (each a listed)

section Stable

variable {element name text : String}

theorem text_minifyValue_again (steady : (ofAttribute element name text).IsSteady) :
    (minifyValue name (ofAttribute element name (minifyValue name (ofAttribute element name text)).text)).text =
      (minifyValue name (ofAttribute element name text)).text := by
  rw [minifyValue, minifyValue, text_minify, text_minify]
  exact minified_of_steady steady

theorem text_minifyPaint_again
    (steady : (ofAttribute element name text).isPaint = true → (ofAttribute element name text).IsSteady) :
    (minifyPaint name (ofAttribute element name (minifyPaint name (ofAttribute element name text)).text)).text =
      (minifyPaint name (ofAttribute element name text)).text := by
  rw [minifyPaint, minifyPaint, isPaint_ofAttribute element name _ text]
  split
  · next paint =>
    rw [text_minify, text_minify]
    exact minified_of_steady (steady paint)
  · rw [text_ofAttribute]

example : ["#ff0000", "red"].map (fun text => (minifyPaint "fill" (ofAttribute "rect" "fill" text)).text) =
    ["red", "red"] := by
  decide +kernel

end Stable

/-- The shortest texts of steady values are steady: what is read from one has it as its
shortest text, too, so a second run changes no attribute. -/
theorem second_run_changes_nothing (element name text : String) (e : Element) (block : Declarations) :
    ((ofAttribute element name text).IsSteady →
      (ofAttribute element name (ofAttribute element name text).minified).minified =
        (ofAttribute element name text).minified) ∧
    (e.Typed → (∀ a ∈ e.attributes.items, a.value.IsSteady) → IsStable minifyValue e.name e.attributes) ∧
    (e.Typed → (∀ a ∈ e.attributes.items, a.value.isPaint = true → a.value.IsSteady) →
      IsStable minifyPaint e.name e.attributes) ∧
    ((PropertyValue.ofText name text).IsSteady →
      (PropertyValue.ofText name (PropertyValue.ofText name text).minified).minified =
        (PropertyValue.ofText name text).minified) ∧
    ((∀ item ∈ block.items, (PropertyValue.ofText item.1 item.2.value).IsSteady) →
      block.minifyValues.minifyValues = block.minifyValues) := by
  refine ⟨minified_of_steady, fun typed steady => isStable_of_values fun a listed => ?_,
    fun typed steady => isStable_of_values fun a listed => ?_, PropertyValue.minified_of_steady,
    Declarations.minifyValues_minifyValues⟩
  · rcases typed.value_eq a listed with ⟨text, read⟩
    rw [read]
    exact text_minifyValue_again (read ▸ steady a listed)
  · rcases typed.value_eq a listed with ⟨text, read⟩
    rw [read]
    exact text_minifyPaint_again (read ▸ steady a listed)

theorem closed_of_color : ∀ id fallback, Paint.read? "#ff0000" = some (.server id fallback) → ')' ∉ id.toList := by
  have color : Paint.read? "#ff0000" = some (.color (.ofCode 0xff0000)) := by decide
  intro id fallback server
  rw [color] at server
  cases server

theorem read_fill : Declarations.read "fill:#ff0000" = ⟨[("fill", ⟨"#ff0000", false⟩)]⟩ := by
  have spelled : Declarations.Spelled ("fill", ⟨"#ff0000", false⟩) :=
    ⟨⟨[], 'f', ['i', 'l', 'l'], .inl rfl, rfl, by decide, List.all_iff_forall_prop.mp (by decide)⟩,
      .of_scanTerm (by decide), by decide⟩
  exact @Declarations.read_writeBlock ⟨[("fill", ⟨"#ff0000", false⟩)]⟩ (List.forall_mem_singleton.mpr spelled)
    (List.nodup_singleton _)

theorem isSteady_fill : Declarations.IsSteady "fill:#ff0000" where
  trimmed := congrArg (fun text => some (Declarations.read text)) (by decide)
  plain := by
    unfold DeclarationScan.IsPlain
    exact List.all_iff_forall_prop.mp (by decide)
  values := by
    rw [read_fill]
    exact List.forall_mem_singleton.mpr closed_of_color
  closed := by
    rw [read_fill]
    exact List.forall_mem_singleton.mpr closed_of_color

theorem isSteady_turn : (ofAttribute "rect" "transform" "translate(1)rotate(45)translate(-2)").IsSteady := by
  have collapsed : (TransformList.read? "translate(1)rotate(45)translate(-2)").all
      (fun l => TransformList.collapse (TransformList.steps l.items) = l.items) = true := by decide +kernel
  refine ⟨congrArg TransformList.read? (by decide), fun l read => ?_⟩
  rw [show TransformList.read? "translate(1)rotate(45)translate(-2)" = some l from read] at collapsed
  exact show TransformList.collapse (TransformList.steps l.items) = l.items from of_decide_eq_true collapsed

/-- Colours, a style, and a rotation between translations are steady. -/
theorem second_run_keeps_colors_and_turns :
    (ofAttribute "rect" "style" (ofAttribute "rect" "style" "fill:#ff0000").minified).minified =
      (ofAttribute "rect" "style" "fill:#ff0000").minified ∧
    IsStable minifyValue "rect" ⟨[⟨"style", ofAttribute "rect" "style" "fill:#ff0000"⟩,
      ⟨"transform", ofAttribute "rect" "transform" "translate(1)rotate(45)translate(-2)"⟩]⟩ ∧
    IsStable minifyPaint "rect" ⟨[⟨"fill", ofAttribute "rect" "fill" "#ff0000"⟩,
      ⟨"opacity", ofAttribute "rect" "opacity" "0.5 "⟩]⟩ ∧
    (PropertyValue.ofText "fill" (PropertyValue.ofText "fill" "#ff0000").minified).minified =
      (PropertyValue.ofText "fill" "#ff0000").minified ∧
    (Declarations.mk [("fill", ⟨"#ff0000", false⟩)]).minifyValues.minifyValues =
      (Declarations.mk [("fill", ⟨"#ff0000", false⟩)]).minifyValues := by
  let typical : Element := ⟨"rect", none, none, ⟨[⟨"style", ofAttribute "rect" "style" "fill:#ff0000"⟩,
    ⟨"transform", ofAttribute "rect" "transform" "translate(1)rotate(45)translate(-2)"⟩]⟩, []⟩
  let painted : Element := ⟨"rect", none, none, ⟨[⟨"fill", ofAttribute "rect" "fill" "#ff0000"⟩,
    ⟨"opacity", ofAttribute "rect" "opacity" "0.5 "⟩]⟩, []⟩
  let block : Declarations := ⟨[("fill", ⟨"#ff0000", false⟩)]⟩
  rcases second_run_changes_nothing "rect" "style" "fill:#ff0000" typical block with ⟨value, all, -, -, blocks⟩
  rcases second_run_changes_nothing "rect" "fill" "#ff0000" painted block with ⟨-, -, paints, property, -⟩
  refine ⟨value isSteady_fill, all ⟨by decide, ?_⟩ ?_, paints ⟨by decide, ?_⟩ ?_, property closed_of_color,
    blocks (List.forall_mem_singleton.mpr closed_of_color)⟩
  · exact List.forall_mem_cons.mpr ⟨⟨_, rfl⟩, List.forall_mem_singleton.mpr ⟨_, rfl⟩⟩
  · exact List.forall_mem_cons.mpr ⟨isSteady_fill, List.forall_mem_singleton.mpr isSteady_turn⟩
  · exact List.forall_mem_cons.mpr ⟨⟨_, rfl⟩, List.forall_mem_singleton.mpr ⟨_, rfl⟩⟩
  · refine List.forall_mem_cons.mpr ⟨fun _ => closed_of_color, List.forall_mem_singleton.mpr fun paint => ?_⟩
    cases paint

/-- A second run changes what trimming made readable, rotations that meet only when others
are put together, and what stands behind a parenthesis in a quoted id. -/
theorem second_run_shortens_further :
    ((ofAttribute "rect" "opacity" "0.5 ").minified = "0.5" ∧ (ofAttribute "rect" "opacity" "0.5").minified = ".5") ∧
    ((ofAttribute "g" "transform" "translate(1)translate(0)rotate(45)translate(0)translate(-1)").minified =
        "translate(1)rotate(45)translate(-1)" ∧
      (ofAttribute "g" "transform" "translate(1)rotate(45)translate(-1)").minified = "rotate(45 1 0)") ∧
    ¬ IsStable minifyValue "rect" ⟨[⟨"opacity", ofAttribute "rect" "opacity" "0.5 "⟩]⟩ ∧
    ¬ IsStable minifyPaint "rect" ⟨[⟨"fill", ofAttribute "rect" "fill" "url(\"#a) rgb(255,0,0\")"⟩]⟩ ∧
    ¬ (∀ block : Declarations, block.minifyValues.minifyValues = block.minifyValues) := by
  refine ⟨by decide +kernel, by decide +kernel, ?_, ?_, fun stays => ?_⟩
  · unfold IsStable
    decide +kernel
  · unfold IsStable
    decide +kernel
  · have turn := stays ⟨[("transform", ⟨"translate(1)translate(0)rotate(45)translate(0)translate(-1)", false⟩)]⟩
    revert turn
    decide +kernel

end Cleanup

end SlimSvg
