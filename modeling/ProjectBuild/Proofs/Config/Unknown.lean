import ProjectBuild.Config.Reader
import ProjectBuild.Proofs.Json.Filled

/-! # Keys that mean nothing to a configuration

    A configuration is read for what its fields mean (`ProjectConfig.meaning`), so
    a key that is no field of its object can be put there, at any place, with any
    value and any white space, and the configuration is the same
    (`ProjectConfig.ofText_widened`).  This holds of the object at the top, of the
    options of the compiler and of the references. -/

namespace ProjectBuild

open Json

/-! ## What fields mean -/

/-- What the value of a field makes of the options. -/
def CompilerOptions.take (name : String) (options : CompilerOptions) (v : Value) :
    Option CompilerOptions :=
  let flag := Value.optional? Value.flag? v
  let text := Value.optional? Value.string? v
  match name with
  | "declaration" => flag.map fun x => { options with declaration := x }
  | "composite" => flag.map fun x => { options with composite := x }
  | "emitDeclarationOnly" => flag.map fun x => { options with emitDeclarationOnly := x }
  | "rootDir" => text.map fun x => { options with rootDir := x }
  | "outDir" => text.map fun x => { options with outDir := x }
  | _ => none

/-- Each option takes what its reader understands. -/
theorem CompilerOptions.take_understands : ∀ field ∈ shape.fields, ∀ filled,
    Understands (field.fill filled) (take field.name filled) := by
  intro field hfield filled
  simp only [shape, List.mem_cons, List.not_mem_nil, or_false] at hfield
  rcases hfield with rfl | rfl | rfl | rfl | rfl
  · exact (optional_understands boolean_understands).map fun x => { filled with declaration := x }
  · exact (optional_understands boolean_understands).map fun x => { filled with composite := x }
  · exact (optional_understands boolean_understands).map fun x =>
      { filled with emitDeclarationOnly := x }
  · exact (optional_understands (text_understands _)).map fun x => { filled with rootDir := x }
  · exact (optional_understands (text_understands _)).map fun x => { filled with outDir := x }

def CompilerOptions.meaning : Value → Option CompilerOptions :=
  shape.meaning take

/-- What the value of a field makes of a reference. -/
def ProjectReference.take (name : String) (_ : ProjectReference) (v : Value) :
    Option ProjectReference :=
  match name with
  | "path" => (Value.string? v).map fun x => ⟨x⟩
  | _ => none

/-- The field of a reference takes what its reader understands. -/
theorem ProjectReference.take_understands : ∀ field ∈ shape.fields, ∀ filled,
    Understands (field.fill filled) (take field.name filled) := by
  intro field hfield filled
  obtain rfl := List.mem_singleton.mp hfield
  exact (text_understands _).map ProjectReference.mk

def ProjectReference.meaning : Value → Option ProjectReference :=
  shape.meaning take

namespace ProjectConfig

/-- What the value of a field makes of a configuration. -/
def take (name : String) (config : ProjectConfig) (v : Value) : Option ProjectConfig :=
  let strings := Value.optional? (Value.list? Value.string?) v
  let references := Value.optional? (Value.list? ProjectReference.meaning) v
  match name with
  | "compilerOptions" => (CompilerOptions.meaning v).map fun x => { config with options := x }
  | "files" => strings.map fun x => { config with files := x }
  | "include" => strings.map fun x => { config with includes := x }
  | "exclude" => strings.map fun x => { config with excludes := x }
  | "references" => references.map fun x => { config with references := x }
  | "extends" => (Value.optional? Value.string? v).map fun x => { config with base := x }
  | _ => none

theorem patterns_understands : Understands patterns (Value.optional? (Value.list? Value.string?)) :=
  optional_understands (list_understands (text_understands _))

/-- Each field of a configuration takes what its reader understands. -/
theorem take_understands : ∀ field ∈ shape.fields, ∀ filled,
    Understands (field.fill filled) (take field.name filled) := by
  intro field hfield filled
  simp only [shape, List.mem_cons, List.not_mem_nil, or_false] at hfield
  rcases hfield with rfl | rfl | rfl | rfl | rfl | rfl
  · exact (shape_understands CompilerOptions.take_understands).map fun x =>
      { filled with options := x }
  · exact patterns_understands.map fun x => { filled with files := x }
  · exact patterns_understands.map fun x => { filled with includes := x }
  · exact patterns_understands.map fun x => { filled with excludes := x }
  · exact (optional_understands (list_understands
      (shape_understands ProjectReference.take_understands))).map fun x =>
      { filled with references := x }
  · exact (optional_understands (text_understands _)).map fun x => { filled with base := x }

/-- What a value means where a configuration is expected. -/
def meaning : Value → Option ProjectConfig :=
  shape.meaning take

/-- **A configuration's reader understands its meaning.** -/
theorem understands : Understands shape.read meaning :=
  shape_understands take_understands

/-! ## Other keys -/

/-- A value with one more key, which is no field of the object it is put into. -/
inductive Widened : Value → Value → Prop
  | top {v v' : Value} (h : Widens shape v v') : Widened v v'
  | options {v v' : Value} (h : Under "compilerOptions" (Widens CompilerOptions.shape) v v') :
      Widened v v'
  | reference {v v' : Value} (h : Under "references" (Within (Widens ProjectReference.shape)) v v') :
      Widened v v'

/-- Options mean the same when unknown members are added to them. -/
theorem take_options {v v' : Value} (h : Widens CompilerOptions.shape v v')
    (config : ProjectConfig) : take "compilerOptions" config v' = take "compilerOptions" config v :=
  congrArg (Option.map _) (Shape.meaning_widens rfl h)

/-- References mean the same when unknown members are added to them. -/
theorem take_references {v v' : Value} (h : Within (Widens ProjectReference.shape) v v')
    (config : ProjectConfig) : take "references" config v' = take "references" config v := by
  have hlist : Value.list? ProjectReference.meaning v' = Value.list? ProjectReference.meaning v :=
    Value.list?_within (fun hwidens => Shape.meaning_widens rfl hwidens) h
  -- both values are lists, so neither is `null`
  cases h
  exact congrArg (fun references? : Option (List ProjectReference) =>
    (references?.map some).map fun x => { config with references := x }) hlist

/-- **Unknown members add no meaning** to a configuration. -/
theorem meaning_widened {v v' : Value} (h : Widened v v') : meaning v' = meaning v := by
  cases h with
  | top h => exact Shape.meaning_widens rfl h
  | options h => exact Shape.meaning_under take_options h
  | reference h => exact Shape.meaning_under take_references h

/-- **Keys that are no fields are inert.**  A configuration is written as some
    value, and it is the configuration of every text that writes this value with
    one more such key in the object at the top, in the options of the compiler or
    in a reference. -/
theorem ofText_widened {text : String} {config : ProjectConfig} (h : ofText text = .ok config) :
    (∃ v, WrittenAs text v) ∧
    ∀ v v' text', WrittenAs text v → Widened v v' → WrittenAs text' v' →
      ofText text' = .ok config := by
  refine ⟨readAll_written understands h, fun v v' text' htext hwidened htext' => ?_⟩
  refine (readAll_eq_ok understands htext' config).mpr ?_
  rw [meaning_widened hwidened]
  exact (readAll_eq_ok understands htext config).mp h

/-- The key of a reference that is read. -/
def pathMember : Member Value :=
  ⟨.none, .none, Piece.letters "path", .none, .none, .string (Piece.letters "a")⟩

/-- A key of a reference that is not, with a value that has it inside. -/
def noteMember : Member Value :=
  ⟨.none, .none, Piece.letters "note", .none, .none,
    .list [⟨.none, .none, .null⟩, ⟨.none, .none, .object [pathMember] .none⟩] .none⟩

/-- A configuration whose only reference has these keys. -/
def referenceValue (members : List (Member Value)) : Value :=
  .object [⟨.none, .none, Piece.letters "references", .none, .none,
    .list [⟨.none, .none, .object members .none⟩] .none⟩] .none

/-- Members are added to a reference and to the configuration around it. -/
theorem ofText_widened_reference :
    ofText "\x7b\"references\":[\x7b\"path\":\"a\"\x7d]\x7d"
      = .ok { references := some [⟨"a"⟩] } ∧
    ofText "\x7b\"references\":[\x7b\"note\":[null,\x7b\"path\":\"a\"\x7d],\"path\":\"a\"\x7d]\x7d"
      = .ok { references := some [⟨"a"⟩] } := by
  have htext : WrittenAs "\x7b\"references\":[\x7b\"path\":\"a\"\x7d]\x7d"
      (referenceValue [pathMember]) := ⟨.none, .none, by decide +kernel⟩
  have hread : ofText "\x7b\"references\":[\x7b\"path\":\"a\"\x7d]\x7d"
      = .ok { references := some [⟨"a"⟩] } :=
    (readAll_eq_ok understands htext _).mpr (by decide +kernel)
  have hnote : spelled (Piece.letters "note") = some "note" := by decide +kernel
  have hreferences : spelled (Piece.letters "references") = some "references" := by decide +kernel
  have hwidens : Widens ProjectReference.shape (.object [pathMember] .none)
      (.object [noteMember, pathMember] .none) := .intro [] rfl rfl hnote (by decide)
  have hwidened : Widened (referenceValue [pathMember]) (referenceValue [noteMember, pathMember]) :=
    .reference (.intro [] rfl rfl hreferences (.intro [] rfl rfl hwidens))
  exact ⟨hread, (ofText_widened hread).2 _ _ _ htext hwidened ⟨.none, .none, by decide +kernel⟩⟩

end ProjectConfig

end ProjectBuild
