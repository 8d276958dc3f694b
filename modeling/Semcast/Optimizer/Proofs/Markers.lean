import Semcast.Misc.Fallible
import Semcast.Misc.FirstSeen
import Semcast.Optimizer.Extract
import Semcast.Sql.Proofs.Accepted

/-!
# Markers and the groups they are gathered in

A marker of a plan that was typed is a source with string literals beside it. Observing
the markers one by one gathers a group for each key, in order of first appearance, and
each group knows what its markers ask for.
-/

namespace Semcast.ExtractRule

open Logical Semcast.Types Ddl ExtractUdf Fallible

variable {F D O : Type}

namespace Marker

def source : Marker F D O → Expr F D O
  | .struct source _ | .field source _ _ | .inline source _ _ _ => source

/-- The same marker of another source. -/
def withSource (source : Expr F D O) : Marker F D O → Marker F D O
  | .struct _ typeName => .struct source typeName
  | .field _ typeName name => .field source typeName name
  | .inline _ name spec doc => .inline source name spec doc

@[simp]
theorem withSource_source (marker : Marker F D O) : marker.withSource marker.source = marker := by
  cases marker <;> rfl

@[simp]
theorem source_withSource (source : Expr F D O) (marker : Marker F D O) :
    (marker.withSource source).source = source := by
  cases marker <;> rfl

def isInline : Marker F D O → Bool
  | .inline .. => true
  | _ => false

/-- What the marker is looked up by, with its source. -/
def key (registry : TypeRegistry F) : Marker F D O → NodeKey
  | .struct _ typeName | .field _ typeName _ => .named (registry.toLowercase typeName)
  | .inline _ name spec _ => .inline name spec

@[simp]
theorem isInline_withSource (source : Expr F D O) (marker : Marker F D O) :
    (marker.withSource source).isInline = marker.isInline := by
  cases marker <;> rfl

/-- What the typing of a plan has made sure of. -/
def Known (registry : TypeRegistry F) (tokenize : String → Except String (List Token)) :
    Marker F D O → Prop
  | .struct _ typeName => ∃ full, registry.get typeName = some full
  | .field _ typeName name =>
    ∃ full spec, registry.get typeName = some full ∧ full.field name = .ok spec
  | .inline _ _ spec _ => ∃ ty, parseSpec registry tokenize spec = .ok ty

end Marker

section Parse

theorem literal_ok_iff {args : List (Expr F D O)} {idx : ℕ} {value : String} :
    literal args idx = .ok value ↔
      ∃ type, args[idx]? = some (.literal (.string type (some value))) := by
  unfold literal
  split
  · rename_i type value' at_
    rw [at_]
    simp
  · rename_i other
    simp only [reduceCtorEq, false_iff, not_exists]
    exact fun type => other type value

theorem requireLiteral_ok {args : List (Expr F D O)} {idx : ℕ} {udf what value value' : String}
    (required : requireLiteral args idx udf what = .ok value)
    (literal : literal args idx = .ok value') : value = value' := by
  obtain ⟨type, at_⟩ := literal_ok_iff.mp literal
  unfold requireLiteral literalStr at required
  rw [at_] at required
  exact (Except.ok.inj required).symm

theorem registered_ok_iff {registry : TypeRegistry F} {name : String} {ty : SemanticType F} :
    registered registry name = .ok ty ↔ registry.get name = some ty := by
  unfold registered
  cases registry.get name <;> simp

theorem arg_ok_iff {args : List (Expr F D O)} {idx : ℕ} {value : Expr F D O} :
    arg args idx = .ok value ↔ args[idx]? = some value := by
  unfold arg
  cases args[idx]? <;> simp

variable {registry : TypeRegistry F} {tokenize : String → Except String (List Token)}

/-- A typed marker is its source with literals beside it, and known to the session. -/
theorem parseMarker_shape {name : String} {args : List (Expr F D O)} {marker : Marker F D O}
    (typed : Typed registry tokenize name args)
    (parsed : parseMarker (.scalarFunction name args) = .ok (some marker)) :
    marker.Known registry tokenize ∧ ∃ values : List (ScalarValue F D),
      args = marker.source :: values.map .literal ∧ ∀ source,
        parseMarker (.scalarFunction name (source :: values.map .literal)) =
          .ok (some (marker.withSource source)) := by
  unfold Typed at typed
  simp only [parseMarker] at parsed ⊢
  by_cases whole : name = semExtractUdfName
  · rw [if_pos whole] at typed parsed
    simp only [if_pos whole]
    obtain ⟨count, report, typed⟩ := typed
    obtain ⟨source, first, parsed⟩ := bind_ok_iff.mp parsed
    obtain ⟨typeName, second, same⟩ := bind_ok_iff.mp parsed
    cases same
    obtain ⟨written, required, typed⟩ := bind_ok_iff.mp typed
    obtain ⟨full, found, -⟩ := bind_ok_iff.mp typed
    cases requireLiteral_ok required second
    obtain ⟨type, at_⟩ := literal_ok_iff.mp second
    refine ⟨⟨full, registered_ok_iff.mp found⟩, [.string type (some typeName)], ?_, fun _ => rfl⟩
    apply List.ext_getElem?
    rintro (_ | _ | index)
    · exact arg_ok_iff.mp first
    · exact at_
    · exact List.getElem?_eq_none (by omega)
  · rw [if_neg whole] at typed parsed
    simp only [if_neg whole]
    by_cases one : name = semExtractFieldUdfName
    · rw [if_pos one] at typed parsed
      simp only [if_pos one]
      obtain ⟨count, report, typed⟩ := typed
      obtain ⟨source, first, parsed⟩ := bind_ok_iff.mp parsed
      obtain ⟨typeName, second, parsed⟩ := bind_ok_iff.mp parsed
      obtain ⟨field, third, same⟩ := bind_ok_iff.mp parsed
      cases same
      obtain ⟨written, required, typed⟩ := bind_ok_iff.mp typed
      obtain ⟨asked, required', typed⟩ := bind_ok_iff.mp typed
      obtain ⟨full, found, typed⟩ := bind_ok_iff.mp typed
      obtain ⟨spec, known, -⟩ := bind_ok_iff.mp typed
      cases requireLiteral_ok required second
      cases requireLiteral_ok required' third
      obtain ⟨type, at_⟩ := literal_ok_iff.mp second
      obtain ⟨type', at_'⟩ := literal_ok_iff.mp third
      refine ⟨⟨full, spec, registered_ok_iff.mp found, known⟩,
        [.string type (some typeName), .string type' (some field)], ?_, fun _ => rfl⟩
      apply List.ext_getElem?
      rintro (_ | _ | _ | index)
      · exact arg_ok_iff.mp first
      · exact at_
      · exact at_'
      · exact List.getElem?_eq_none (by omega)
    · rw [if_neg one] at typed parsed
      simp only [if_neg one]
      by_cases inline : name = semExtractInlineUdfName
      · rw [if_pos inline] at typed parsed
        simp only [if_pos inline]
        obtain ⟨count, report, typed⟩ := typed
        obtain ⟨source, first, parsed⟩ := bind_ok_iff.mp parsed
        obtain ⟨field, second, parsed⟩ := bind_ok_iff.mp parsed
        obtain ⟨spec, third, parsed⟩ := bind_ok_iff.mp parsed
        obtain ⟨doc, fourth, same⟩ := bind_ok_iff.mp parsed
        cases same
        obtain ⟨asked, required, typed⟩ := bind_ok_iff.mp typed
        obtain ⟨written, required', typed⟩ := bind_ok_iff.mp typed
        obtain ⟨ty, known, -⟩ := bind_ok_iff.mp typed
        cases requireLiteral_ok required second
        cases requireLiteral_ok required' third
        obtain ⟨type, at_⟩ := literal_ok_iff.mp second
        obtain ⟨type', at_'⟩ := literal_ok_iff.mp third
        obtain ⟨type'', at_''⟩ := literal_ok_iff.mp fourth
        refine ⟨⟨ty, known⟩, [.string type (some field), .string type' (some spec),
          .string type'' (some doc)], ?_, fun _ => rfl⟩
        apply List.ext_getElem?
        rintro (_ | _ | _ | _ | index)
        · exact arg_ok_iff.mp first
        · exact at_
        · exact at_'
        · exact at_''
        · exact List.getElem?_eq_none (by omega)
      · rw [if_neg inline] at parsed
        cases parsed

theorem arg_error {args : List (Expr F D O)} {idx : ℕ} {failure : Failure}
    (failed : arg args idx = .error failure) : ∃ message, failure = .error message := by
  unfold arg at failed
  split at failed
  · cases failed
  · cases failed
    exact ⟨_, rfl⟩

theorem literal_error {args : List (Expr F D O)} {idx : ℕ} {failure : Failure}
    (failed : literal args idx = .error failure) : ∃ message, failure = .error message := by
  unfold literal at failed
  split at failed
  · cases failed
  · cases failed
    exact ⟨_, rfl⟩

/-- A parse only ever fails with an error. -/
theorem parseMarker_error {expr : Expr F D O} {failure : Failure}
    (failed : parseMarker expr = .error failure) : ∃ message, failure = .error message := by
  unfold parseMarker at failed
  split at failed
  · split at failed
    · rcases bind_error_iff.mp failed with stopped | ⟨source, -, failed⟩
      · exact arg_error stopped
      · rcases bind_error_iff.mp failed with stopped | ⟨typeName, -, failed⟩
        · exact literal_error stopped
        · cases failed
    · split at failed
      · rcases bind_error_iff.mp failed with stopped | ⟨source, -, failed⟩
        · exact arg_error stopped
        · rcases bind_error_iff.mp failed with stopped | ⟨typeName, -, failed⟩
          · exact literal_error stopped
          · rcases bind_error_iff.mp failed with stopped | ⟨field, -, failed⟩
            · exact literal_error stopped
            · cases failed
      · split at failed
        · rcases bind_error_iff.mp failed with stopped | ⟨source, -, failed⟩
          · exact arg_error stopped
          · rcases bind_error_iff.mp failed with stopped | ⟨field, -, failed⟩
            · exact literal_error stopped
            · rcases bind_error_iff.mp failed with stopped | ⟨spec, -, failed⟩
              · exact literal_error stopped
              · rcases bind_error_iff.mp failed with stopped | ⟨doc, -, failed⟩
                · exact literal_error stopped
                · cases failed
        · cases failed
  · cases failed

theorem parseMarker_eq_none_iff {expr : Expr F D O} :
    parseMarker expr = .ok none ↔ isMarker expr = false := by
  unfold parseMarker isMarker
  split
  · rename_i name args
    constructor
    · intro parsed
      split at parsed
      · obtain ⟨source, -, parsed⟩ := bind_ok_iff.mp parsed
        obtain ⟨typeName, -, same⟩ := bind_ok_iff.mp parsed
        cases same
      · split at parsed
        · obtain ⟨source, -, parsed⟩ := bind_ok_iff.mp parsed
          obtain ⟨typeName, -, parsed⟩ := bind_ok_iff.mp parsed
          obtain ⟨field, -, same⟩ := bind_ok_iff.mp parsed
          cases same
        · split at parsed
          · obtain ⟨source, -, parsed⟩ := bind_ok_iff.mp parsed
            obtain ⟨field, -, parsed⟩ := bind_ok_iff.mp parsed
            obtain ⟨spec, -, parsed⟩ := bind_ok_iff.mp parsed
            obtain ⟨doc, -, same⟩ := bind_ok_iff.mp parsed
            cases same
          · simp_all
    · intro other
      simp only [Bool.or_eq_false_iff, beq_eq_false_iff_ne] at other
      rw [if_neg other.1.1, if_neg other.1.2, if_neg other.2]
      rfl
  · exact ⟨fun _ => rfl, fun _ => rfl⟩

theorem exists_call_of_parseMarker {expr : Expr F D O} {marker : Marker F D O}
    (parsed : parseMarker expr = .ok (some marker)) :
    ∃ name args, expr = .scalarFunction name args := by
  unfold parseMarker at parsed
  split at parsed
  · exact ⟨_, _, rfl⟩
  · cases parsed

/-- The marker that an expression is. -/
def markerOf (expr : Expr F D O) : Option (Marker F D O) :=
  match parseMarker expr with
  | .ok marker => marker
  | .error _ => none

theorem markerOf_eq {expr : Expr F D O} {marker : Option (Marker F D O)}
    (parsed : parseMarker expr = .ok marker) : markerOf expr = marker := by
  rw [markerOf, parsed]

/-- The markers of some expressions, in the order they are collected. -/
def markersOf (exprs : List (Expr F D O)) : List (Marker F D O) :=
  (exprs.flatMap Expr.subexpressions).filterMap markerOf

/-- Whether a call of a marker cannot be read. -/
def Malformed (exprs : List (Expr F D O)) : Prop :=
  ∃ inner ∈ exprs.flatMap Expr.subexpressions, ∃ failure, parseMarker inner = .error failure

theorem collectMarkers_of_malformed {exprs : List (Expr F D O)} (malformed : Malformed exprs) :
    ∃ message, collectMarkers exprs = .error (.error message) := by
  obtain ⟨inner, member, failure, failed⟩ := malformed
  unfold collectMarkers
  cases all : (exprs.flatMap Expr.subexpressions).mapM parseMarker with
  | ok parsed =>
    obtain ⟨marker, read⟩ := mapM_ok_iff.mp ⟨parsed, all⟩ inner member
    rw [failed] at read
    cases read
  | error failure =>
    obtain ⟨stopped, -, failed⟩ := exists_mem_of_mapM_error all
    obtain ⟨message, rfl⟩ := parseMarker_error failed
    exact ⟨message, rfl⟩

theorem collectMarkers_of_wellFormed {exprs : List (Expr F D O)}
    (wellFormed : ¬ Malformed exprs) : collectMarkers exprs = .ok (markersOf exprs) := by
  unfold collectMarkers markersOf
  cases all : (exprs.flatMap Expr.subexpressions).mapM parseMarker with
  | error failure =>
    obtain ⟨inner, member, failed⟩ := exists_mem_of_mapM_error all
    exact absurd ⟨inner, member, failure, failed⟩ wellFormed
  | ok parsed =>
    have each : List.Forall₂ (fun inner marker => markerOf inner = marker)
        (exprs.flatMap Expr.subexpressions) parsed :=
      (mapM_eq_ok_iff.mp all).imp fun _ _ => markerOf_eq
    have same : parsed = (exprs.flatMap Expr.subexpressions).map markerOf := by
      rw [← List.forall₂_eq_eq_eq, List.forall₂_map_right_iff]
      exact each.flip.imp fun _ _ => Eq.symm
    change Except.ok (parsed.filterMap id) = _
    rw [same, List.filterMap_map]
    rfl

/-- Other children make no marker of what is none. -/
theorem isMarker_mapChildren (g : Expr F D O → Expr F D O) (expr : Expr F D O) :
    isMarker (Expr.mapChildren g expr) = isMarker expr := by
  cases expr with
  | column | literal | case => rfl
  | node head args => cases head <;> rfl

end Parse

end Semcast.ExtractRule
