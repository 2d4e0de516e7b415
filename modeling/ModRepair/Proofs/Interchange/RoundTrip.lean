import ModRepair.Interchange.Reader
import ModRepair.Interchange.Writer
import ModRepair.Proofs.Json.RoundTrip
import ModRepair.Proofs.Metadata.Written

/-!
# Modules read back

What the writers of `Interchange` put down, the readers give back: for each kind of reference and declaration, and
for whole modules. The value that is written keeps within the reader of texts as well (`plain_moduleJson`), so the
round trip goes through the text of the document.

* `readModule_moduleJson` — **the round trip of values**;
* `parse_moduleJson` — **the round trip of texts**.
-/

namespace ModRepair.Interchange

/-! ## Lists -/

section

variable {α : Type} {read : Json → Result α} {write : α → Json}

theorem readAll_map {as : List α} (h : ∀ a ∈ as, read (write a) = .ok a) : readAll read (as.map write) = .ok as := by
  induction as with
  | nil => rfl
  | cons a as ih =>
      obtain ⟨ha, has⟩ := List.forall_mem_cons.mp h
      rw [List.map_cons, readAll, ha, ih has]
      rfl

/-- A list under a key reads back if its elements do. -/
theorem listAt_map (key : String) (context : Bytes) (as : List α) {j : Json} (hj : j.get? (ascii key) = some (.array (as.map write)))
    (h : ∀ a ∈ as, read (write a) = .ok a) : listAt key context read j = .ok as := by
  rw [listAt, hj]
  simp only [readAll_map h]
  rfl

end

/-! ## References -/

theorem readTypeRef_typeJson {t : TypeRef} (h : t.Written) : readTypeRef (typeJson t) = .ok t := by
  rw [typeJson, readTypeRef, h.ofText?_text]

/-- A type under a key reads back. -/
theorem typeAt_typeJson (key : String) (context : Bytes) {j : Json} {t : TypeRef} (h : t.Written)
    (hj : j.get? (ascii key) = some (typeJson t)) : typeAt key context j = .ok t := by
  rw [typeAt, hj]
  exact readTypeRef_typeJson h

theorem readFieldRef_fieldRefJson {r : FieldRef} (h : r.Written) : readFieldRef (fieldRefJson r) = .ok r := by
  have hname : stringAt "name" (ascii "field reference") (fieldRefJson r) = .ok r.name := rfl
  have hdeclaring := typeAt_typeJson "type" (ascii "field reference") (j := fieldRefJson r) h.1 rfl
  have hfield := typeAt_typeJson "field_type" (ascii "field reference") (j := fieldRefJson r) h.2 rfl
  simp only [readFieldRef, hname, hdeclaring, hfield, bind, Except.bind, pure, Except.pure]

theorem readMethodRef_methodRefJson {r : MethodRef} (h : r.Written) : readMethodRef (methodRefJson r) = .ok r := by
  have hname : stringAt "name" (ascii "method reference") (methodRefJson r) = .ok r.name := rfl
  have hdeclaring := typeAt_typeJson "type" (ascii "method reference") (j := methodRefJson r) h.1 rfl
  have hreturn := typeAt_typeJson "return" (ascii "method reference") (j := methodRefJson r) h.2.1 rfl
  have hparameters := listAt_map "parameters" (ascii "method reference" ++ ascii " " ++ r.name) r.parameters
    (j := methodRefJson r) rfl
    fun t ht => readTypeRef_typeJson (h.2.2 t ht)
  have hinstance : boolAt "instance" true (methodRefJson r) = r.hasThis := rfl
  simp only [readMethodRef, hname, hdeclaring, hreturn, hparameters, hinstance, bind, Except.bind, pure, Except.pure]

theorem readPropertyRef_propertyRefJson {r : PropertyRef} (h : r.Written) :
    readPropertyRef (propertyRefJson r) = .ok r := by
  have hname : stringAt "name" (ascii "property reference") (propertyRefJson r) = .ok r.name := rfl
  have hdeclaring := typeAt_typeJson "type" (ascii "property reference") (j := propertyRefJson r) h.1 rfl
  have hproperty := typeAt_typeJson "property_type" (ascii "property reference") (j := propertyRefJson r) h.2 rfl
  simp only [readPropertyRef, hname, hdeclaring, hproperty, bind, Except.bind, pure, Except.pure]

/-! ## Instructions -/

/-- The operand under the key of its kind is the one that is found. -/
theorem readOperand_instructionJson {op : Opcode} {o : Operand} (h : o.Written) :
    readOperand (instructionJson ⟨op, o⟩) = .ok o := by
  cases o with
  | none => rfl
  | type r =>
      show (readTypeRef (typeJson r)).map Operand.type = _
      rw [readTypeRef_typeJson (Operand.written_type.mp h)]
      rfl
  | field r =>
      show (readFieldRef (fieldRefJson r)).map Operand.field = _
      rw [readFieldRef_fieldRefJson (Operand.written_field.mp h)]
      rfl
  | method r =>
      show (readMethodRef (methodRefJson r)).map Operand.method = _
      rw [readMethodRef_methodRefJson (Operand.written_method.mp h)]
      rfl
  | property r =>
      show (readPropertyRef (propertyRefJson r)).map Operand.property = _
      rw [readPropertyRef_propertyRefJson (Operand.written_property.mp h)]
      rfl

theorem ofMnemonic?_mnemonic (op : Opcode) : Opcode.ofMnemonic? op.mnemonic = some op := by
  cases op <;> rfl

/-- **An instruction reads back.** -/
theorem readInstruction_instructionJson {i : Instruction} (h : i.Written) :
    readInstruction (instructionJson i) = .ok i := by
  obtain ⟨op, o⟩ := i
  have hop : stringAt "op" (ascii "instruction") (instructionJson ⟨op, o⟩) = .ok op.mnemonic := by
    cases o <;> rfl
  have hoperand : (readOperand (instructionJson ⟨op, o⟩)).mapError (Fault.within op.mnemonic) = .ok o := by
    rw [readOperand_instructionJson h.operand]
    rfl
  simp only [readInstruction, hop, bind, Except.bind, ofMnemonic?_mnemonic, hoperand, h.wellFormed, if_true, pure,
    Except.pure]

/-! ## Declarations -/

theorem readField_fieldJson {d : FieldDecl} (h : d.Written) : readField (fieldJson d) = .ok d := by
  obtain ⟨name, type, isStatic, isLiteral⟩ := d
  have hname : stringAt "name" (ascii "field") (fieldJson ⟨name, type, isStatic, isLiteral⟩) = .ok name := by
    cases isLiteral <;> rfl
  have htype : typeAt "type" (described "field" name) (fieldJson ⟨name, type, isStatic, isLiteral⟩) = .ok type :=
    typeAt_typeJson "type" _ h (by cases isLiteral <;> rfl)
  have hstatic : boolAt "static" false (fieldJson ⟨name, type, isStatic, isLiteral⟩) = isStatic := by
    cases isLiteral <;> rfl
  have hliteral : boolAt "literal" false (fieldJson ⟨name, type, isStatic, isLiteral⟩) = isLiteral := by
    cases isLiteral <;> rfl
  simp only [readField, hname, htype, hstatic, hliteral, bind, Except.bind, pure, Except.pure]

/-- A body reads back, and so does its absence. -/
theorem readBody_methodJson (context : Bytes) {d : MethodDecl} (h : d.Written) :
    readBody context (methodJson d) = .ok d.body := by
  obtain ⟨signature, body⟩ := d
  cases body with
  | none => rfl
  | some is =>
      have hlist := listAt_map "body" context is (j := methodJson ⟨signature, some is⟩) rfl
        fun i hi => readInstruction_instructionJson (h.body i hi)
      show (listAt "body" context readInstruction (methodJson ⟨signature, some is⟩)).map some = _
      rw [hlist]
      rfl

theorem readMethod_methodJson {d : MethodDecl} (h : d.Written) : readMethod (methodJson d) = .ok d := by
  have hname : stringAt "name" (ascii "method") (methodJson d) = .ok d.signature.name := by
    obtain ⟨signature, body⟩ := d
    cases body <;> rfl
  have hreturn : typeAt "return" (described "method" d.signature.name) (methodJson d) = .ok d.signature.returnType :=
    typeAt_typeJson "return" _ h.signature.1 (by obtain ⟨signature, body⟩ := d; cases body <;> rfl)
  have hparameters : listAt "parameters" (described "method" d.signature.name) readTypeRef (methodJson d) =
      .ok d.signature.parameters :=
    listAt_map "parameters" _ _ (by obtain ⟨signature, body⟩ := d; cases body <;> rfl)
      fun t ht => readTypeRef_typeJson (h.signature.2 t ht)
  have hstatic : boolAt "static" false (methodJson d) = d.signature.isStatic := by
    obtain ⟨signature, body⟩ := d
    cases body <;> rfl
  simp only [readMethod, hname, hreturn, hparameters, readBody_methodJson _ h, hstatic, bind, Except.bind, pure,
    Except.pure]

theorem readProperty_propertyJson {d : PropertyDecl} (h : d.Written) : readProperty (propertyJson d) = .ok d := by
  obtain ⟨name, type, getter, setter⟩ := d
  have htype : typeAt "type" (described "property" name) (propertyJson ⟨name, type, getter, setter⟩) = .ok type :=
    typeAt_typeJson "type" _ h (by cases getter <;> cases setter <;> rfl)
  have hname : stringAt "name" (ascii "property") (propertyJson ⟨name, type, getter, setter⟩) = .ok name := by
    cases getter <;> cases setter <;> rfl
  have hgetter : (propertyJson ⟨name, type, getter, setter⟩).getString? (ascii "get") = getter := by
    cases getter <;> cases setter <;> rfl
  have hsetter : (propertyJson ⟨name, type, getter, setter⟩).getString? (ascii "set") = setter := by
    cases getter <;> cases setter <;> rfl
  simp only [readProperty, hname, htype, hgetter, hsetter, bind, Except.bind, pure, Except.pure]

theorem readEvent_eventJson {d : EventDecl} (h : d.Written) : readEvent (eventJson d) = .ok d := by
  have hname : stringAt "name" (ascii "event") (eventJson d) = .ok d.name := rfl
  have htype := typeAt_typeJson "type" (described "event" d.name) (j := eventJson d) h rfl
  simp only [readEvent, hname, htype, bind, Except.bind, pure, Except.pure]

/-- **A type reads back.** -/
theorem readType_typeDeclJson {t : TypeDecl} (h : t.Written) : readType (typeDeclJson t) = .ok t := by
  have hname : stringAt "name" (ascii "type") (typeDeclJson t) = .ok t.fullName := rfl
  have hfields := listAt_map "fields" (described "type" t.fullName) t.fields (j := typeDeclJson t) rfl
    fun d hd => readField_fieldJson (h.fields d hd)
  have hmethods := listAt_map "methods" (described "type" t.fullName) t.methods (j := typeDeclJson t) rfl
    fun d hd => readMethod_methodJson (h.methods d hd)
  have hproperties := listAt_map "properties" (described "type" t.fullName) t.properties (j := typeDeclJson t) rfl
    fun d hd => readProperty_propertyJson (h.properties d hd)
  have hevents := listAt_map "events" (described "type" t.fullName) t.events (j := typeDeclJson t) rfl
    fun d hd => readEvent_eventJson (h.events d hd)
  simp only [readType, hname, hfields, hmethods, hproperties, hevents, bind, Except.bind, pure, Except.pure]

/-! ## Modules -/

theorem readAssemblyNames_moduleJson (context : Bytes) (m : Module) :
    readAssemblyNames context (moduleJson m) = .ok m.imports.assemblies := by
  show readAll _ (m.imports.assemblies.map Json.string) = _
  exact readAll_map fun _ _ => rfl

/-- **A module reads back** with the host that it is bound to. -/
theorem readModule_moduleJson {m : Module} (h : m.Written) : readModule m.host (moduleJson m) = .ok m := by
  have hname : stringAt "name" (ascii "module") (moduleJson m) = .ok m.name := rfl
  have htypes := listAt_map "types" (described "module" m.name) m.types (j := moduleJson m) rfl
    fun t ht => readType_typeDeclJson (h.types t ht)
  have himported := listAt_map "imported_types" (described "module" m.name) m.imports.types (j := moduleJson m) rfl
    fun t ht => readTypeRef_typeJson (h.imports.types t ht)
  have hfields := listAt_map "imported_fields" (described "module" m.name) m.imports.fields (j := moduleJson m) rfl
    fun r hr => readFieldRef_fieldRefJson (h.imports.fields r hr)
  have hmethods := listAt_map "imported_methods" (described "module" m.name) m.imports.methods (j := moduleJson m) rfl
    fun r hr => readMethodRef_methodRefJson (h.imports.methods r hr)
  simp only [readModule, hname, htypes, readAssemblyNames_moduleJson, himported, hfields, hmethods, bind, Except.bind,
    pure, Except.pure]

/-! ## Texts

The numbers count arrays and objects one within another; `Json.Plain` is what the reader of texts asks for. -/

/-- An object under literal keys is plain if its members are. -/
theorem plain_objectJson {n : Nat} {members : List (String × Json)} (h : ∀ e ∈ members, Json.Plain n e.2) :
    Json.Plain (n + 1) (objectJson members) := by
  apply Json.Plain.ofMembers
  intro e he
  obtain ⟨e', he', rfl⟩ := List.mem_map.mp he
  exact h e' he'

/-- An array is plain if its elements are. -/
theorem plain_array_map {α : Type} {n : Nat} {write : α → Json} (as : List α) (h : ∀ a, Json.Plain n (write a)) :
    Json.Plain (n + 1) (.array (as.map write)) := by
  apply Json.Plain.array
  intro j hj
  obtain ⟨a, -, rfl⟩ := List.mem_map.mp hj
  exact h a

theorem plain_typeJson (n : Nat) (t : TypeRef) : Json.Plain n (typeJson t) := .string n _

theorem plain_typesJson (n : Nat) (ts : List TypeRef) : Json.Plain (n + 1) (typesJson ts) :=
  plain_array_map ts (plain_typeJson n)

theorem plain_fieldRefJson (n : Nat) (r : FieldRef) : Json.Plain (n + 1) (fieldRefJson r) := by
  apply plain_objectJson
  simp [typeJson, Json.Plain.string]

theorem plain_methodRefJson (n : Nat) (r : MethodRef) : Json.Plain (n + 2) (methodRefJson r) := by
  apply plain_objectJson
  simp [typeJson, plain_typesJson, Json.Plain.string, Json.Plain.bool]

theorem plain_propertyRefJson (n : Nat) (r : PropertyRef) : Json.Plain (n + 1) (propertyRefJson r) := by
  apply plain_objectJson
  simp [typeJson, Json.Plain.string]

theorem plain_instructionJson (n : Nat) (i : Instruction) : Json.Plain (n + 3) (instructionJson i) := by
  apply plain_objectJson
  refine List.forall_mem_cons.mpr ⟨.string _ _, ?_⟩
  cases i.operand <;>
    simp [operandMembers, plain_typeJson, plain_fieldRefJson, plain_methodRefJson, plain_propertyRefJson]

theorem plain_fieldJson (n : Nat) (d : FieldDecl) : Json.Plain (n + 1) (fieldJson d) := by
  apply plain_objectJson
  cases d.isLiteral <;> simp [typeJson, Json.Plain.string, Json.Plain.bool]

theorem plain_propertyJson (n : Nat) (d : PropertyDecl) : Json.Plain (n + 1) (propertyJson d) := by
  apply plain_objectJson
  cases d.getter <;> cases d.setter <;> simp [optionalName, typeJson, Json.Plain.string]

theorem plain_eventJson (n : Nat) (d : EventDecl) : Json.Plain (n + 1) (eventJson d) := by
  apply plain_objectJson
  simp [typeJson, Json.Plain.string]

theorem plain_methodJson (n : Nat) (d : MethodDecl) : Json.Plain (n + 5) (methodJson d) := by
  apply plain_objectJson
  cases d.body with
  | none => simp [bodyMembers, typeJson, plain_typesJson, Json.Plain.string, Json.Plain.bool]
  | some is =>
      have his := plain_array_map is (plain_instructionJson n)
      simp [bodyMembers, typeJson, plain_typesJson, Json.Plain.string, Json.Plain.bool, his]

theorem plain_typeDeclJson (n : Nat) (t : TypeDecl) : Json.Plain (n + 7) (typeDeclJson t) := by
  have hfields := plain_array_map t.fields (plain_fieldJson (n + 4))
  have hproperties := plain_array_map t.properties (plain_propertyJson (n + 4))
  have hevents := plain_array_map t.events (plain_eventJson (n + 4))
  have hmethods := plain_array_map t.methods (plain_methodJson n)
  apply plain_objectJson
  simp [Json.Plain.string, hfields, hproperties, hevents, hmethods]

theorem plain_moduleJson (m : Module) : Json.Plain 9 (moduleJson m) := by
  have htypes := plain_array_map m.types (plain_typeDeclJson 0)
  have hfields := plain_array_map m.imports.fields (plain_fieldRefJson 6)
  have hmethods := plain_array_map m.imports.methods (plain_methodRefJson 5)
  have hassemblies : Json.Plain 8 (Json.strings m.imports.assemblies) :=
    plain_array_map m.imports.assemblies fun name => .string 7 name
  apply plain_objectJson
  simp [Json.Plain.string, plain_typesJson, hassemblies, htypes, hfields, hmethods]

/-- **The text of a module reads back**, with or without the line feed at the end of a file. -/
theorem parse_moduleJson (m : Module) :
    Json.parse (moduleJson m).document = .ok (moduleJson m) ∧ Json.parse (moduleDocument m) = .ok (moduleJson m) := by
  have hread : ∀ blanks, (∀ c ∈ blanks, Json.Parser.isBlank c = true) →
      Json.parse ((moduleJson m).document ++ blanks) = .ok (moduleJson m) := fun _ hblanks =>
    Json.parse_render (plain_moduleJson m) (by decide) (.indented 2) hblanks
  constructor
  · have hbare := hread [] (fun c hc => by cases hc)
    rwa [List.append_nil] at hbare
  · apply hread
    intro c hc
    rw [List.mem_singleton.mp hc]
    rfl

end ModRepair.Interchange
