import ModRepair.Interchange.Reader
import ModRepair.Proofs.Metadata.Written

/-!
# What readers accept can be written

Every reader of `Interchange` gives only what can be written again: the types it has read come from texts, and an
instruction with an operand that its opcode does not take is a fault. The main results are `readModule_written` and
`readAssembly_written`; each reader has a lemma of its own, in the order of the readers.
-/

namespace ModRepair

/-! ## Results -/

/-- A sequence that succeeds has steps that succeed. -/
theorem ok_of_bind {ε α β : Type} {x : Except ε α} {f : α → Except ε β} {b : β} (h : x >>= f = .ok b) :
    ∃ a, x = .ok a ∧ f a = .ok b := by
  cases x with
  | error e => cases h
  | ok a => exact ⟨a, rfl, h⟩

theorem bind_eq_ok_iff {ε α β : Type} {x : Except ε α} {f : α → Except ε β} {b : β} :
    x >>= f = .ok b ↔ ∃ a, x = .ok a ∧ f a = .ok b := by
  refine ⟨ok_of_bind, ?_⟩
  rintro ⟨a, rfl, h⟩
  exact h

theorem ok_of_mapError {ε ε' α : Type} {x : Except ε α} {f : ε → ε'} {a : α} (h : x.mapError f = .ok a) :
    x = .ok a := by
  cases x with
  | error e => cases h
  | ok b =>
      cases h
      rfl

theorem ok_of_map {ε α β : Type} {x : Except ε α} {f : α → β} {b : β} (h : x.map f = .ok b) :
    ∃ a, x = .ok a ∧ f a = b := by
  cases x with
  | error e => cases h
  | ok a =>
      cases h
      exact ⟨a, rfl, rfl⟩

namespace Interchange

section

variable {α : Type} {read : Json → Result α} {P : α → Prop}

/-- What holds of everything that a reader accepts holds of all elements of a list. -/
theorem readAll_all (hread : ∀ j a, read j = .ok a → P a) {js : List Json} {as : List α}
    (h : readAll read js = .ok as) : ∀ a ∈ as, P a := by
  induction js generalizing as with
  | nil =>
      cases h
      intro a ha
      cases ha
  | cons j js ih =>
      obtain ⟨a, ha, h⟩ := ok_of_bind h
      obtain ⟨as, has, h⟩ := ok_of_bind h
      cases h
      exact List.forall_mem_cons.mpr ⟨hread j a ha, ih has⟩

theorem listAt_all (hread : ∀ j a, read j = .ok a → P a) {key : String} {context : Bytes} {j : Json} {as : List α}
    (h : listAt key context read j = .ok as) : ∀ a ∈ as, P a := by
  unfold listAt at h
  split at h
  · cases h
    intro a ha
    cases ha
  · exact readAll_all hread (ok_of_mapError h)
  · cases h

end

/-! ## References -/

theorem readTypeRef_written {j : Json} {t : TypeRef} (h : readTypeRef j = .ok t) : t.Written := by
  unfold readTypeRef at h
  split at h
  · split at h
    · next htext =>
        cases h
        exact (TypeRef.ofText?_eq_some_iff.mp htext).1
    · cases h
  · cases h

theorem typeAt_written {key : String} {context : Bytes} {j : Json} {t : TypeRef} (h : typeAt key context j = .ok t) :
    t.Written := by
  unfold typeAt at h
  split at h
  · exact readTypeRef_written h
  · cases h

theorem readFieldRef_written {j : Json} {r : FieldRef} (h : readFieldRef j = .ok r) : r.Written := by
  obtain ⟨name, -, h⟩ := ok_of_bind h
  obtain ⟨declaringType, hdeclaring, h⟩ := ok_of_bind h
  obtain ⟨fieldType, hfield, h⟩ := ok_of_bind h
  cases h
  exact ⟨typeAt_written hdeclaring, typeAt_written hfield⟩

theorem readMethodRef_written {j : Json} {r : MethodRef} (h : readMethodRef j = .ok r) : r.Written := by
  obtain ⟨name, -, h⟩ := ok_of_bind h
  obtain ⟨declaringType, hdeclaring, h⟩ := ok_of_bind h
  obtain ⟨returnType, hreturn, h⟩ := ok_of_bind h
  obtain ⟨parameters, hparameters, h⟩ := ok_of_bind h
  cases h
  exact ⟨typeAt_written hdeclaring, typeAt_written hreturn,
    listAt_all (fun _ _ => readTypeRef_written) hparameters⟩

theorem readPropertyRef_written {j : Json} {r : PropertyRef} (h : readPropertyRef j = .ok r) : r.Written := by
  obtain ⟨name, -, h⟩ := ok_of_bind h
  obtain ⟨declaringType, hdeclaring, h⟩ := ok_of_bind h
  obtain ⟨propertyType, hproperty, h⟩ := ok_of_bind h
  cases h
  exact ⟨typeAt_written hdeclaring, typeAt_written hproperty⟩

theorem readRef_written {kind : OperandKind} {j : Json} {o : Operand} (h : readRef kind j = .ok o) : o.Written := by
  cases kind with
  | none =>
      cases h
      intro t ht
      cases ht
  | type =>
      obtain ⟨t, ht, rfl⟩ := ok_of_map h
      exact Operand.written_type.mpr (readTypeRef_written ht)
  | field =>
      obtain ⟨r, hr, rfl⟩ := ok_of_map h
      exact Operand.written_field.mpr (readFieldRef_written hr)
  | method =>
      obtain ⟨r, hr, rfl⟩ := ok_of_map h
      exact Operand.written_method.mpr (readMethodRef_written hr)
  | property =>
      obtain ⟨r, hr, rfl⟩ := ok_of_map h
      exact Operand.written_property.mpr (readPropertyRef_written hr)

/-! ## Instructions and declarations -/

theorem readOperand_written {j : Json} {o : Operand} (h : readOperand j = .ok o) : o.Written := by
  unfold readOperand at h
  split at h
  · exact readRef_written h
  · cases h
    intro t ht
    cases ht

/-- **An instruction that is accepted** has an operand that its opcode takes, of types that can be written. -/
theorem readInstruction_written {j : Json} {i : Instruction} (h : readInstruction j = .ok i) : i.Written := by
  obtain ⟨mnemonic, -, h⟩ := ok_of_bind h
  split at h
  · cases h
  · obtain ⟨operand, hoperand, h⟩ := ok_of_bind h
    simp only at h
    split at h
    · next hfits =>
        cases h
        exact ⟨hfits, readOperand_written (ok_of_mapError hoperand)⟩
    · cases h

theorem readField_written {j : Json} {d : FieldDecl} (h : readField j = .ok d) : d.Written := by
  obtain ⟨name, -, h⟩ := ok_of_bind h
  obtain ⟨type, htype, h⟩ := ok_of_bind h
  cases h
  exact typeAt_written htype

theorem readBody_written {context : Bytes} {j : Json} {body : Option (List Instruction)}
    (h : readBody context j = .ok body) : ∀ i ∈ body.getD [], i.Written := by
  unfold readBody at h
  split at h
  · cases h
    intro i hi
    cases hi
  · obtain ⟨is, his, rfl⟩ := ok_of_map h
    exact listAt_all (fun _ _ => readInstruction_written) his

theorem readMethod_written {j : Json} {d : MethodDecl} (h : readMethod j = .ok d) : d.Written := by
  obtain ⟨name, -, h⟩ := ok_of_bind h
  obtain ⟨returnType, hreturn, h⟩ := ok_of_bind h
  obtain ⟨parameters, hparameters, h⟩ := ok_of_bind h
  obtain ⟨body, hbody, h⟩ := ok_of_bind h
  cases h
  exact ⟨⟨typeAt_written hreturn, listAt_all (fun _ _ => readTypeRef_written) hparameters⟩, readBody_written hbody⟩

theorem readProperty_written {j : Json} {d : PropertyDecl} (h : readProperty j = .ok d) : d.Written := by
  obtain ⟨name, -, h⟩ := ok_of_bind h
  obtain ⟨type, htype, h⟩ := ok_of_bind h
  cases h
  exact typeAt_written htype

theorem readEvent_written {j : Json} {d : EventDecl} (h : readEvent j = .ok d) : d.Written := by
  obtain ⟨name, -, h⟩ := ok_of_bind h
  obtain ⟨type, htype, h⟩ := ok_of_bind h
  cases h
  exact typeAt_written htype

theorem readType_written {j : Json} {t : TypeDecl} (h : readType j = .ok t) : t.Written := by
  obtain ⟨fullName, -, h⟩ := ok_of_bind h
  obtain ⟨fields, hfields, h⟩ := ok_of_bind h
  obtain ⟨methods, hmethods, h⟩ := ok_of_bind h
  obtain ⟨properties, hproperties, h⟩ := ok_of_bind h
  obtain ⟨events, hevents, h⟩ := ok_of_bind h
  cases h
  exact
    { fields := listAt_all (fun _ _ => readField_written) hfields
      methods := listAt_all (fun _ _ => readMethod_written) hmethods
      properties := listAt_all (fun _ _ => readProperty_written) hproperties
      events := listAt_all (fun _ _ => readEvent_written) hevents }

/-! ## Documents -/

/-- **An assembly that is accepted can be written.** -/
theorem readAssembly_written {j : Json} {a : Assembly} (h : readAssembly j = .ok a) : ∀ t ∈ a.types, t.Written := by
  obtain ⟨name, -, h⟩ := ok_of_bind h
  obtain ⟨types, htypes, h⟩ := ok_of_bind h
  cases h
  exact listAt_all (fun _ _ => readType_written) htypes

/-- **A module that is accepted can be written**, and is bound to the host that the reader was given. -/
theorem readModule_written {host : Option Host} {j : Json} {m : Module} (h : readModule host j = .ok m) :
    m.host = host ∧ m.Written := by
  obtain ⟨name, -, h⟩ := ok_of_bind h
  obtain ⟨moduleTypes, hmoduleTypes, h⟩ := ok_of_bind h
  obtain ⟨assemblies, -, h⟩ := ok_of_bind h
  obtain ⟨types, htypes, h⟩ := ok_of_bind h
  obtain ⟨fields, hfields, h⟩ := ok_of_bind h
  obtain ⟨methods, hmethods, h⟩ := ok_of_bind h
  cases h
  exact ⟨rfl,
    { types := listAt_all (fun _ _ => readType_written) hmoduleTypes
      imports :=
        { types := listAt_all (fun _ _ => readTypeRef_written) htypes
          fields := listAt_all (fun _ _ => readFieldRef_written) hfields
          methods := listAt_all (fun _ _ => readMethodRef_written) hmethods } }⟩

end Interchange

end ModRepair
