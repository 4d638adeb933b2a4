/-
# Methods with a footprint

A footprint says when two states are the same to a party, and when a step left the rest of
the state alone. A method works within it if what it returns and what it leaves there depend
only on what it finds there, and if it spares the rest. Parties whose footprints are apart
cannot tell whether the others are there: the replies of one party in any interleaving are
those of the run in which only it takes part.
-/

import Pari.Data.Stateful

namespace Data

universe u v

variable {σ τ ε ε' α β : Type}

/-- What a party sees of a state, and what it leaves to the others. -/
structure Footprint (σ : Type) where
  Same : σ → σ → Prop
  Spares : σ → σ → Prop
  spares_refl : ∀ state, Spares state state
  spares_trans : ∀ {first second third : σ},
    Spares first second → Spares second third → Spares first third

/-- The method sees nothing outside a footprint, and changes nothing there. -/
structure Method.Within (footprint : Footprint σ) (method : Method σ ε α) : Prop where
  reply : ∀ {left right : σ}, footprint.Same left right →
    (call left method).1 = (call right method).1
  same : ∀ {left right : σ}, footprint.Same left right →
    footprint.Same (call left method).2 (call right method).2
  spares : ∀ state, footprint.Spares state (call state method).2

namespace Method.Within

variable {footprint : Footprint σ} {method : Method σ ε α} {next : α → Method σ ε β}

theorem pure (value : α) : (Pure.pure value : Method σ ε α).Within footprint where
  reply _ := rfl
  same h := h
  spares := footprint.spares_refl

theorem lift (result : Except ε α) : (Method.lift result : Method σ ε α).Within footprint where
  reply _ := rfl
  same h := h
  spares := footprint.spares_refl

theorem tryRead {view : σ → Except ε α}
    (hview : ∀ {left right : σ}, footprint.Same left right → view left = view right) :
    (Method.tryRead view).Within footprint where
  reply := hview
  same h := h
  spares := footprint.spares_refl

theorem read {view : σ → α}
    (hview : ∀ {left right : σ}, footprint.Same left right → view left = view right) :
    (Method.read view : Method σ ε α).Within footprint where
  reply h := congrArg Except.ok (hview h)
  same h := h
  spares := footprint.spares_refl

theorem update {change : σ → σ}
    (hsame : ∀ {left right : σ}, footprint.Same left right →
      footprint.Same (change left) (change right))
    (hspares : ∀ state, footprint.Spares state (change state)) :
    (Method.update change : Method σ ε Unit).Within footprint where
  reply _ := rfl
  same := hsame
  spares := hspares

theorem bind (h : method.Within footprint) (hnext : ∀ value, (next value).Within footprint) :
    (method >>= next).Within footprint := by
  have hrun : ∀ {left right : σ}, footprint.Same left right →
      (call left (method >>= next)).1 = (call right (method >>= next)).1 ∧
        footprint.Same (call left (method >>= next)).2 (call right (method >>= next)).2 := by
    intro left right hsame
    have hreply := h.reply hsame
    have hleft := h.same hsame
    cases hfirst : call left method with
    | mk result left' =>
        cases hsecond : call right method with
        | mk other right' =>
            rw [hfirst, hsecond] at hreply hleft
            dsimp only at hreply hleft
            subst hreply
            cases result with
            | error error =>
                rw [call_bind_error hfirst, call_bind_error hsecond]
                exact ⟨rfl, hleft⟩
            | ok value =>
                rw [call_bind_ok hfirst, call_bind_ok hsecond]
                exact ⟨(hnext value).reply hleft, (hnext value).same hleft⟩
  refine ⟨fun hsame => (hrun hsame).1, fun hsame => (hrun hsame).2, fun state => ?_⟩
  have hfirst := h.spares state
  cases hcall : call state method with
  | mk result state' =>
      rw [hcall] at hfirst
      cases result with
      | error error => rwa [call_bind_error hcall]
      | ok value =>
          rw [call_bind_ok hcall]
          exact footprint.spares_trans hfirst ((hnext value).spares state')

theorem forM {items : List α} {body : α → Method σ ε Unit}
    (h : ∀ item, (body item).Within footprint) : (items.forM body).Within footprint := by
  induction items with
  | nil => exact .pure ()
  | cons item items ih => exact (h item).bind fun _ => ih

theorem mapM {items : List α} {body : α → Method σ ε β}
    (h : ∀ item, (body item).Within footprint) : (items.mapM body).Within footprint := by
  induction items with
  | nil => exact .pure []
  | cons item items ih =>
      rw [List.mapM_cons]
      exact (h item).bind fun _ => ih.bind fun _ => .pure _

/-- A method of a component works within the footprint of its owner, if the owner's footprint
is that of the component and of what the owner keeps itself. -/
theorem onPart {inner : Footprint τ} {part : σ → τ} {replace : τ → σ → σ} {convert : ε → ε'}
    {method : Method τ ε α} (h : method.Within inner)
    (hpart : ∀ {left right : σ}, footprint.Same left right → inner.Same (part left) (part right))
    (hsame : ∀ {left right : σ} {left' right' : τ}, footprint.Same left right →
      inner.Same left' right' → footprint.Same (replace left' left) (replace right' right))
    (hspares : ∀ {state : σ} {state' : τ}, inner.Spares (part state) state' →
      footprint.Spares state (replace state' state)) :
    (method.onPart part replace convert).Within footprint where
  reply hleft := congrArg (Except.mapError convert) (h.reply (hpart hleft))
  same hleft := hsame hleft (h.same (hpart hleft))
  spares state := hspares (h.spares (part state))

end Method.Within

/-! ## Interleavings -/

section Interleaving

variable {event : Type u} {reply : Type v}

/-- The replies to a sequence of events, each with its event, and the state they leave. -/
def runEvents (act : event → σ → reply × σ) : σ → List event → List (event × reply) × σ
  | state, [] => ([], state)
  | state, first :: events =>
      let (answer, state') := act first state
      let (answers, last) := runEvents act state' events
      ((first, answer) :: answers, last)

variable {act : event → σ → reply × σ} {same : σ → σ → Prop} {concerns : event → Bool}

/-- If the events that concern a party see and change the same things from states that are the
same to it, and all others leave the state the same to it, then the party is answered in any
sequence of events as in the one from which all others are left out. -/
theorem filter_runEvents
    (htrans : ∀ {first second third : σ}, same first second → same second third → same first third)
    (hinside : ∀ first, concerns first = true → ∀ {left right : σ}, same left right →
      (act first left).1 = (act first right).1 ∧ same (act first left).2 (act first right).2)
    (houtside : ∀ first, concerns first = false → ∀ {left right : σ}, same left right →
      same (act first left).2 left)
    {left right : σ} (h : same left right) (events : List event) :
    (runEvents act left events).1.filter (fun entry => concerns entry.1) =
        (runEvents act right (events.filter concerns)).1 ∧
      same (runEvents act left events).2 (runEvents act right (events.filter concerns)).2 := by
  induction events generalizing left right with
  | nil => exact ⟨rfl, h⟩
  | cons first events ih =>
      cases hconcerns : concerns first with
      | true =>
          obtain ⟨hreply, hnext⟩ := hinside first hconcerns h
          obtain ⟨hreplies, hlast⟩ := ih hnext
          rw [List.filter_cons_of_pos hconcerns]
          simp only [runEvents]
          rw [List.filter_cons_of_pos (by simpa using hconcerns), hreplies, hreply]
          exact ⟨rfl, hlast⟩
      | false =>
          obtain ⟨hreplies, hlast⟩ := ih (htrans (houtside first hconcerns h) h)
          rw [List.filter_cons_of_neg (by simp [hconcerns])]
          simp only [runEvents]
          rw [List.filter_cons_of_neg (by simp [hconcerns])]
          exact ⟨hreplies, hlast⟩

end Interleaving

end Data
