import Directives.Exchange.Text
import Directives.Proofs.Completion
import Directives.Proofs.LoopExchange
/-!
Reports are read as they were written, where their numbers are in the range of their fields. With
that, programs and reports come back from their text.
-/

namespace Directives

open Json

/-! ## Vocabularies of reports -/

instance : LawfulVocabulary Sharing where
  complete a := by cases a <;> simp [Vocabulary.members]
  distinct := by simp [Vocabulary.members, label]

instance : LawfulVocabulary Origin where
  complete a := by cases a <;> simp [Vocabulary.members]
  distinct := by simp [Vocabulary.members, label]

instance : LawfulVocabulary PlacementFailure where
  complete a := by cases a <;> simp [Vocabulary.members]
  distinct := by simp [Vocabulary.members, label]

instance : LawfulVocabulary RegionStatus where
  complete a := by cases a <;> simp [Vocabulary.members]
  distinct := by simp [Vocabulary.members, label]

/-! ## Attributes and verdicts -/

namespace Modifier

def fits : Modifier → Bool
  | .linearStep step => step.all Wide.fits
  | _ => true

theorem readModifier_linearStep {j : Json} {step : Option Int}
    (value : Reader.option .wide j = some step) :
    ofJson? (tagged "LinearStep" j) = some (.linearStep step) :=
  some_of_one (f := Modifier.linearStep) value

theorem means {m : Modifier} (fits : m.fits) : Means ofJson? m.toJson m := by
  cases m with
  | none => exact ⟨rfl, trivial⟩
  | conditional => exact ⟨rfl, trivial⟩
  | reduction op =>
    exact ⟨some_of_one (f := Modifier.reduction) (means_member op).read, trivial, trivial⟩
  | map type => exact ⟨some_of_one (f := Modifier.map) (means_member type).read, trivial, trivial⟩
  | linearStep step =>
    have value := means_wide_option fits
    exact ⟨readModifier_linearStep value.read, value.readable, trivial⟩

end Modifier

namespace Attribute

def fits (a : Attribute) : Bool :=
  a.modifier.fits && (a.frame.all (· < capacity 64) && a.location.all (·.fits))

theorem means {a : Attribute} (fits : a.fits) : Means ofJson? a.toJson a := by
  simp only [Attribute.fits, Bool.and_eq_true] at fits
  have kind := means_member a.kind
  have modifier := Modifier.means fits.1
  have frame := means_word_option fits.2.1
  have location : Means (.option Location.ofJson?) (ofOption Location.toJson a.location)
      a.location := means_option_of_all rfl (fun _ => Location.means) fits.2.2
  have origin := means_member a.origin
  constructor
  · have names : ["kind", "modifier", "frame", "location", "origin"].Nodup := by decide
    refine bind_of_some rfl ?_
    refine bind_of_some (Record.required_eq names rfl kind) ?_
    refine bind_of_some (Record.required_eq names rfl modifier) ?_
    refine bind_of_some (Record.optional_eq names rfl frame) ?_
    refine bind_of_some (Record.optional_eq names rfl location) ?_
    refine bind_of_some (Record.required_eq names rfl origin) ?_
    rfl
  · exact ⟨kind.readable, modifier.readable, frame.readable, location.readable, origin.readable,
      trivial⟩

end Attribute

namespace VariableAttribute

def fits (a : VariableAttribute) : Bool := a.var.fits && a.attr.fits

theorem means {a : VariableAttribute} (fits : a.fits) : Means ofJson? a.toJson a := by
  rw [VariableAttribute.fits, Bool.and_eq_true] at fits
  have var := DeclId.means fits.1
  have attr := Attribute.means fits.2
  constructor
  · have names : ["var", "attr"].Nodup := by decide
    refine bind_of_some rfl ?_
    refine bind_of_some (Record.required_eq names rfl var) ?_
    refine bind_of_some (Record.required_eq names rfl attr) ?_
    rfl
  · exact ⟨var.readable, attr.readable, trivial⟩

end VariableAttribute

namespace Verdict

def fits : Verdict → Bool
  | .legal => true
  | .illegal _ _ _ conflicting => conflicting.all (· < capacity 64)

theorem readVerdict_illegal {j : Json} {failure : PlacementFailure} {hint : Option DirectiveKind}
    {rule : String} {conflicting : Option Nat}
    (position : Reader.option (.word 64) j = some conflicting) :
    ofJson? (tagged "Illegal" (.obj [("failure", ofMember failure), ("hint", ofOption ofMember hint),
      ("rule", .str rule), ("conflicting", j)])) = some (.illegal failure hint rule conflicting) :=
  some_of_four (f := Verdict.illegal) (means_member failure).read
    (means_option rfl means_member).read (means_string rule).read position

theorem means {v : Verdict} (fits : v.fits) : Means ofJson? v.toJson v := by
  cases v with
  | legal => exact ⟨rfl, trivial⟩
  | illegal failure hint rule conflicting =>
    have shown : Means (.option .member) (ofOption ofMember hint) hint :=
      means_option rfl means_member
    have position := means_word_option fits
    exact ⟨readVerdict_illegal position.read,
      ⟨trivial, shown.readable, trivial, position.readable, trivial⟩, trivial⟩

end Verdict

/-! ## Reports -/

namespace ImplicitClauses

def fits (c : ImplicitClauses) : Bool :=
  c.firstprivate.all (·.fits) && (c.priv.all (·.fits) && (c.shared.all (·.fits) &&
    c.map.entries.all fun e => e.2.all (·.fits)))

/-- The variables of each map type, in the order in which the map has them. -/
theorem means_map {m : SortedMap MapType (List DeclId)}
    (fits : (m.entries.all fun e => e.2.all (·.fits)) = true) :
    Means readMap
      (.obj (m.entries.map fun e => (label e.1, ofList DeclId.toJson e.2))) m := by
  have members (l : List (MapType × List DeclId)) (fits : (l.all fun e => e.2.all (·.fits)) = true) :
      ((l.map fun e => (label e.1, ofList DeclId.toJson e.2)).mapM fun m => do
        return (← Vocabulary.find? MapType m.1, ← Reader.list DeclId.ofJson? m.2)) = some l ∧
      MembersReadable (l.map fun e => (label e.1, ofList DeclId.toJson e.2)) := by
    induction l with
    | nil => exact ⟨rfl, trivial⟩
    | cons e rest ih =>
      rw [List.all_cons, Bool.and_eq_true] at fits
      have ids := means_decls fits.1
      obtain ⟨read, readable⟩ := ih fits.2
      refine ⟨?_, ids.readable, readable⟩
      rw [List.map_cons, List.mapM_cons, read]
      simp -implicitDefEqProofs [Vocabulary.find?_label, ids.read]
  obtain ⟨read, readable⟩ := members m.entries fits
  refine ⟨?_, readable⟩
  rw [readMap, read]
  exact congrArg some m.ofList_entries

theorem means {c : ImplicitClauses} (fits : c.fits) : Means ofJson? c.toJson c := by
  simp only [ImplicitClauses.fits, Bool.and_eq_true] at fits
  have firstprivate := means_decls fits.1
  have priv := means_decls fits.2.1
  have shared := means_decls fits.2.2.1
  have map := means_map fits.2.2.2
  constructor
  · have names : ["firstprivate", "private", "shared", "map"].Nodup := by decide
    refine bind_of_some rfl ?_
    refine bind_of_some (Record.required_eq names rfl firstprivate) ?_
    refine bind_of_some (Record.required_eq names rfl priv) ?_
    refine bind_of_some (Record.required_eq names rfl shared) ?_
    refine bind_of_some (Record.required_eq names rfl map) ?_
    rfl
  · exact ⟨firstprivate.readable, priv.readable, shared.readable, map.readable, trivial⟩

end ImplicitClauses

namespace RegionReport

/-- Numbers of regions and depths have 64 bits. -/
def fits (r : RegionReport) : Bool :=
  (r.id < capacity 64 && (r.location.fits && (r.parent.all (· < capacity 64) &&
    r.depth < capacity 64))) &&
  (r.verdict.fits && (r.attributes.all (·.fits) && (r.unresolved.all (·.fits) &&
    r.rejected.all (·.fits)))) &&
  (r.implicit.fits && r.nest.all (·.fits))

theorem means {r : RegionReport} (fits : r.fits) : Means ofJson? r.toJson r := by
  simp only [RegionReport.fits, Bool.and_eq_true] at fits
  obtain ⟨⟨place, found⟩, inferred⟩ := fits
  have id := means_word (of_decide_eq_true place.1)
  have kind := means_member r.kind
  have name : Means (.option .string) (ofOption .str r.name) r.name := means_option rfl means_string
  have location := Location.means place.2.1
  have parent := means_word_option place.2.2.1
  have depth := means_word (of_decide_eq_true place.2.2.2)
  have verdict := Verdict.means found.1
  have status := means_member r.status
  have attributes : Means (.list VariableAttribute.ofJson?)
      (ofList VariableAttribute.toJson r.attributes) r.attributes :=
    means_list (fun _ => VariableAttribute.means) found.2.1
  have unresolved := means_decls found.2.2.1
  have rejected := means_decls found.2.2.2
  have implicit := ImplicitClauses.means inferred.1
  have nest : Means (.option LoopNest.ofJson?) (ofOption LoopNest.toJson r.nest) r.nest :=
    means_option_of_all rfl (fun _ => LoopNest.means) inferred.2
  constructor
  · have names :
        ["id", "kind", "name", "location", "parent", "depth", "nesting", "status", "attributes",
         "unresolved", "rejected", "implicit", "loop_nest", "cancel_present"].Nodup := by decide
    refine bind_of_some rfl ?_
    refine bind_of_some (Record.required_eq names rfl id) ?_
    refine bind_of_some (Record.required_eq names rfl kind) ?_
    refine bind_of_some (Record.optional_eq names rfl name) ?_
    refine bind_of_some (Record.required_eq names rfl location) ?_
    refine bind_of_some (Record.optional_eq names rfl parent) ?_
    refine bind_of_some (Record.required_eq names rfl depth) ?_
    refine bind_of_some (Record.required_eq names rfl verdict) ?_
    refine bind_of_some (Record.required_eq names rfl status) ?_
    refine bind_of_some (Record.required_eq names rfl attributes) ?_
    refine bind_of_some (Record.required_eq names rfl unresolved) ?_
    refine bind_of_some (Record.required_eq names rfl rejected) ?_
    refine bind_of_some (Record.required_eq names rfl implicit) ?_
    refine bind_of_some (Record.optional_eq names rfl nest) ?_
    refine bind_of_some (Record.required_eq names rfl (means_bool _)) ?_
    rfl
  · exact ⟨id.readable, kind.readable, name.readable, location.readable, parent.readable,
      depth.readable, verdict.readable, status.readable, attributes.readable, unresolved.readable,
      rejected.readable, implicit.readable, nest.readable, trivial, trivial⟩

end RegionReport

namespace Report

/-- The numbers of the report are in the range of their fields. -/
def fits (r : Report) : Bool := r.regions.all (·.fits) && r.decls.fits

theorem means {r : Report} (fits : r.fits) : Means ofJson? r.toJson r := by
  rw [Report.fits, Bool.and_eq_true] at fits
  have regions : Means (.list RegionReport.ofJson?) (ofList RegionReport.toJson r.regions)
      r.regions := means_list (fun _ => RegionReport.means) fits.1
  have decls := DeclTable.means fits.2
  exact ⟨some_of_two (f := Report.mk) regions.read decls.read, regions.readable, decls.readable,
    trivial⟩

end Report

/-! ## Text -/

/-- What means a thing comes back from its text, however that is laid out. -/
theorem Json.Means.parse? {α : Type} {read : Reader α} {j : Json} {a : α} (h : Means read j a)
    (layout : Layout) (low : j.height ≤ textDepth) :
    (Json.parse? textDepth (j.text layout)).bind read = some a := by
  rw [parse?_text layout h.readable low, Option.bind_some, h.read]

/-- Programs and reports are read from their text as they were, if their numbers are in the range of
their fields and their values are no higher than a text may hold. -/
theorem read_back :
    (∀ p : Program, p.fits → p.toJson.height ≤ textDepth → Program.ofText p.toText = .ok p) ∧
      ∀ r : Report, r.fits → r.toJson.height ≤ textDepth → Report.ofText r.toText = .ok r := by
  constructor
  · intro p fits low
    have read := (Program.means fits).parse? .compact low
    rw [Program.ofText, Program.toText, compactText, read]
  · intro r fits low
    have read := (Report.means fits).parse? .pretty low
    rw [Report.ofText, Report.toText, prettyText, read]

/-- A program whose names need escapes and whose literal takes 128 bits, and its report. -/
theorem read_back_escaped :
    let p := Draft.program do
      let x ← Draft.functionLocal "na\u00efve \"x\"\\\t" .int32
      let i ← Draft.functionLocal "i\n\u0001" .int32
      let least ← Draft.typedInt Wide.least .int64
      let body ← Draft.block [← Draft.exprStmt (← Draft.assign x least), ← Draft.useVars [x, i]]
      let loop ← Draft.countedLoop i (← Draft.int 0) (← Draft.int 8) body
      let critical ← Draft.region .critical fun r => { r with name := "\u03bb\u2192\x08" }
      return [critical, ← Draft.region .parallelFor fun r =>
        { r.withList (.lastprivate false) [x] with body := some loop }]
    Program.ofText p.toText = .ok p ∧
      ∃ report, (analyze {} p).1 = .ok report ∧ Report.ofText report.toText = .ok report := by
  intro p
  obtain ⟨report, analyzed, fits, low⟩ :
      ∃ report, (analyze {} p).1 = .ok report ∧
        report.fits = true ∧ report.toJson.height ≤ textDepth :=
    exists_report_of_decide (fun r => r.fits = true ∧ r.toJson.height ≤ textDepth)
      (by decide +kernel)
  exact ⟨read_back.1 p (by decide +kernel) (by decide +kernel), report, analyzed,
    read_back.2 report fits low⟩

end Directives
