import ModRepair.Proofs.Metadata.Alignment

/-!
# The visit at a place

A traversal hands a state from one instruction to the next. `Traversal.arrival?` says with what state it comes to a
place: with the one that visiting everything in front of the place leaves.

* `Traversal.instructionAt?_types` — **what a traversal leaves at a place** is what the visit there returns;
* `Traversal.arrival?_instruction` — the visit is to the instruction that stood at the place;
* `Traversal.arrival?_invariant` — a step lemma for the visit holds of the state with which it is made;
* `Traversal.holds_at_end` — what the visit at a place brings about and later ones preserve holds at the end.
-/

namespace ModRepair

/-- A visit about to be made: where, to which instruction, and with what state. -/
structure Arrival (σ : Type) where
  site : Site
  instruction : Instruction
  state : σ

/-- The instructions of a module are those at its places. -/
theorem Module.mem_instructions_iff {m : Module} {i : Instruction} :
    i ∈ m.instructions ↔ ∃ p, m.instructionAt? p = some i := by
  simp only [Module.instructions, List.mem_flatMap]
  constructor
  · rintro ⟨t, ht, d, hd, hi⟩
    obtain ⟨k, hk⟩ := List.mem_iff_getElem?.mp ht
    obtain ⟨l, hl⟩ := List.mem_iff_getElem?.mp hd
    cases hbody : d.body with
    | none =>
        rw [hbody] at hi
        cases hi
    | some is =>
        rw [hbody] at hi
        obtain ⟨n, hn⟩ := List.mem_iff_getElem?.mp hi
        exact ⟨⟨k, l, n⟩, by simp [instructionAt?, hk, hl, hbody]; exact hn⟩
  · rintro ⟨p, hp⟩
    obtain ⟨t, ht, hp⟩ := Option.bind_eq_some_iff.mp hp
    obtain ⟨d, hd, hp⟩ := Option.bind_eq_some_iff.mp hp
    obtain ⟨is, his, hi⟩ := Option.bind_eq_some_iff.mp hp
    exact ⟨t, List.mem_of_getElem? ht, d, List.mem_of_getElem? hd, by rw [his]; exact List.mem_of_getElem? hi⟩

/-- What a list is mapped to at an index depends on the state that the elements in front leave. -/
theorem getElem?_threadMap {α β σ : Type} (f : α → σ → β × σ) (l : List α) (s : σ) (n : Nat) :
    (threadMap f l s).1[n]? = l[n]?.map fun a => (f a (threadMap f (l.take n) s).2).1 := by
  induction l generalizing s n with
  | nil => simp [threadMap]
  | cons a l ih =>
      cases n with
      | zero => simp [threadMap]
      | succ n => simpa [threadMap] using ih (f a s).2 n

/-- The state at the end of a list is that which its elements from an index on make of the state before them. -/
theorem threadMap_state {α β σ : Type} (f : α → σ → β × σ) {l : List α} (s : σ) {n : Nat} {a : α}
    (h : l[n]? = some a) :
    (threadMap f l s).2 = (threadMap f (l.drop (n + 1)) (f a (threadMap f (l.take n) s).2).2).2 := by
  induction l generalizing s n with
  | nil => cases h
  | cons b l ih =>
      cases n with
      | zero =>
          cases h
          rfl
      | succ n => exact ih (f b s).2 h

namespace Traversal

variable {σ : Type} (visit : Site → Instruction → σ → Instruction × σ)

/-- The instruction that takes the place of another depends on the state that those in front leave. -/
theorem getElem?_body (typeName methodName : Bytes) (is : List Instruction) (s : σ) (start n : Nat) :
    (body visit typeName methodName start is s).1[n]? =
      is[n]?.map fun i =>
        (visit ⟨typeName, methodName, start + n⟩ i (body visit typeName methodName start (is.take n) s).2).1 := by
  induction is generalizing s start n with
  | nil => simp [body]
  | cons i is ih =>
      cases n with
      | zero => simp [body]
      | succ n =>
          have hrest := ih (visit ⟨typeName, methodName, start⟩ i s).2 (start + 1) n
          rw [Nat.add_assoc, Nat.add_comm 1 n] at hrest
          simpa [body] using hrest

/-- The state at the end of a body is that which its instructions from an index on make of the state before them. -/
theorem body_state (typeName methodName : Bytes) {is : List Instruction} (s : σ) (start : Nat) {n : Nat}
    {i : Instruction} (h : is[n]? = some i) :
    (body visit typeName methodName start is s).2 =
      (body visit typeName methodName (start + n + 1) (is.drop (n + 1))
        (visit ⟨typeName, methodName, start + n⟩ i (body visit typeName methodName start (is.take n) s).2).2).2 := by
  induction is generalizing s start n with
  | nil => cases h
  | cons j is ih =>
      cases n with
      | zero =>
          cases h
          rfl
      | succ n =>
          have hrest := ih (visit ⟨typeName, methodName, start⟩ j s).2 (start + 1) h
          rw [show start + 1 + n = start + (n + 1) by omega] at hrest
          exact hrest

/-- The visit that a traversal makes at a place. It has then been through the types in front of that of the place, in
    this type through the methods in front, and in the body through the instructions in front. -/
def arrival? (ts : List TypeDecl) (s : σ) (p : Position) : Option (Arrival σ) :=
  ts[p.type]?.bind fun t =>
    t.methods[p.method]?.bind fun d =>
      d.body.bind fun is =>
        is[p.offset]?.map fun i =>
          let s := (types visit (ts.take p.type) s).2
          let s := (threadMap (method visit t.fullName) (t.methods.take p.method) s).2
          let s := (body visit t.fullName d.signature.name 0 (is.take p.offset) s).2
          ⟨⟨t.fullName, d.signature.name, p.offset⟩, i, s⟩

variable {visit} {s : σ} {p : Position} {a : Arrival σ}

/-- An arrival at a place, with what is in front of it. -/
theorem arrival?_eq_some {ts : List TypeDecl} (h : arrival? visit ts s p = some a) :
    ∃ t d is i, ts[p.type]? = some t ∧ t.methods[p.method]? = some d ∧ d.body = some is ∧ is[p.offset]? = some i ∧
      a = ⟨⟨t.fullName, d.signature.name, p.offset⟩, i,
        (body visit t.fullName d.signature.name 0 (is.take p.offset)
          (threadMap (method visit t.fullName) (t.methods.take p.method)
            (types visit (ts.take p.type) s).2).2).2⟩ := by
  obtain ⟨t, ht, h⟩ := Option.bind_eq_some_iff.mp h
  obtain ⟨d, hd, h⟩ := Option.bind_eq_some_iff.mp h
  obtain ⟨is, his, h⟩ := Option.bind_eq_some_iff.mp h
  obtain ⟨i, hi, rfl⟩ := Option.map_eq_some_iff.mp h
  exact ⟨t, d, is, i, ht, hd, his, hi, rfl⟩

/-- A traversal comes to every place, and to the instruction there. -/
theorem arrival?_instruction (visit : Site → Instruction → σ → Instruction × σ) (m : Module) (s : σ) (p : Position) :
    (arrival? visit m.types s p).map (·.instruction) = m.instructionAt? p := by
  simp [arrival?, Module.instructionAt?, Option.map_bind, Option.map_map, Function.comp_def]

/-- **What a traversal leaves at a place** is what the visit there returns. -/
theorem instructionAt?_types (m : Module) (s : σ) (p : Position) :
    ({ m with types := (types visit m.types s).1 } : Module).instructionAt? p =
      (arrival? visit m.types s p).map fun a => (visit a.site a.instruction a.state).1 := by
  simp only [Module.instructionAt?, arrival?, types, getElem?_threadMap]
  cases m.types[p.type]? with
  | none => rfl
  | some t =>
      simp only [Option.map_some, Option.bind_some, type, getElem?_threadMap]
      cases t.methods[p.method]? with
      | none => rfl
      | some d =>
          obtain ⟨signature, is⟩ := d
          cases is with
          | none => rfl
          | some is =>
              simp only [Option.map_some, Option.bind_some, method, getElem?_body, Option.map_map, Nat.zero_add]
              rfl

/-- **Invariants on arrival.** What visits preserve holds of the state with which a place is reached, and of some
    instructions that were visited before. -/
theorem arrival?_invariant {I : List Instruction → σ → Prop}
    (hstep : ∀ i site done s, I done s → I (done ++ [i]) (visit site i s).2) (hI : I [] s)
    {ts : List TypeDecl} (h : arrival? visit ts s p = some a) : ∃ done, I done a.state := by
  obtain ⟨t, d, is, i, -, -, -, -, rfl⟩ := arrival?_eq_some h
  -- The types in front, then the methods, then the instructions: the law of each level takes the state further.
  have hvisit : ∀ i site done s, I done s → True ∧ I (done ++ [i]) (visit site i s).2 :=
    fun i site done s h => ⟨trivial, hstep i site done s h⟩
  have htypes : I ((ts.take p.type).flatMap TypeDecl.instructions) (types visit (ts.take p.type) s).2 :=
    (types_aligned visit (fun _ _ => True) I (fun i _ => hvisit i) hI).2
  have hmethods := (threadMap_run (g := MethodDecl.instructions) (l := t.methods.take p.method)
    (fun _ _ => method_run visit (fun _ _ => True) I t.fullName fun i _ => hvisit i) _ _ htypes).2
  have hbody : ∀ j ∈ is.take p.offset, ∀ site done s, I done s → True ∧ I (done ++ [j]) (visit site j s).2 :=
    fun j _ => hvisit j
  exact ⟨_, (body_run visit (fun _ _ => True) I t.fullName d.signature.name hbody 0 _ _ hmethods).2⟩

/-- **From a place to the end.** What is so after the visit at a place, and what visits preserve, is so at the end. -/
theorem holds_at_end {P : σ → Prop} (hstep : ∀ site i s, P s → P (visit site i s).2) {ts : List TypeDecl}
    (h : arrival? visit ts s p = some a) (hP : P (visit a.site a.instruction a.state).2) :
    P (types visit ts s).2 := by
  obtain ⟨t, d, is, i, ht, hd, his, hi, rfl⟩ := arrival?_eq_some h
  have hvisit : ∀ i site (done : List Instruction) s, P s → True ∧ P (visit site i s).2 :=
    fun i site _ s h => ⟨trivial, hstep site i s h⟩
  -- The rest of the body, then that of the type, then that of the module.
  have hbody : P (body visit t.fullName d.signature.name 0 is (threadMap (method visit t.fullName)
      (t.methods.take p.method) (types visit (ts.take p.type) s).2).2).2 := by
    rw [body_state visit _ _ _ 0 hi, Nat.zero_add]
    exact (body_run visit (fun _ _ => True) (fun _ => P) _ _ (fun j _ => hvisit j) _ [] _ hP).2
  have hmethod : P (method visit t.fullName d (threadMap (method visit t.fullName) (t.methods.take p.method)
      (types visit (ts.take p.type) s).2).2).2 := by
    rw [method, his]
    exact hbody
  have htype : P (type visit t (types visit (ts.take p.type) s).2).2 := by
    show P (threadMap (method visit t.fullName) t.methods _).2
    rw [threadMap_state _ _ hd]
    exact (threadMap_run (I := fun _ => P) (g := MethodDecl.instructions)
      (fun d _ => method_run visit (fun _ _ => True) (fun _ => P) t.fullName fun j _ => hvisit j) [] _ hmethod).2
  rw [types, threadMap_state _ _ ht]
  exact (threadMap_run (I := fun _ => P) (g := TypeDecl.instructions)
    (fun t _ => type_run visit (fun _ _ => True) (fun _ => P) fun j _ => hvisit j) [] _ htype).2

end Traversal

end ModRepair
