import Mathlib
import ProvisioningValidator.ReaderRules

/-!
# What readers leave behind

Pre- and postconditions for readers that record no error: from an entity with the one property a
reader leads to an entity with the other (`Leads`). A value of another kind than expected and a
missing member that has to be there are errors, so nothing is asked of those branches. `Gives` is
the same for the elements of an array.
-/

namespace ProvisioningValidator

open Lib Lib.Run

variable {E A B V : Type} {val : Json → V}

/-- From an entity that satisfies `I`, the reader leads to one that satisfies `J`, unless it records
an error. -/
def Leads (I : E → Prop) (r : Reader E) (J : E → Prop) : Prop :=
  ∀ v e e', I e → Yields Quiet (r v e) e' → J e'

/-- What an element of an array gives satisfies `P`, unless an error is recorded. -/
def Gives (element : Json → ParserM (Option A)) (P : A → Prop) : Prop :=
  ∀ v a, Yields Quiet (element v) (some a) → P a

theorem not_quiet_emit {e : Error} {u : Unit} : ¬ Yields Quiet (emit (.error e)) u := by
  intro h
  have hquiet : Quiet (.error e) := yields_emit.1 h
  exact Bool.noConfusion (show true = false from hquiet)

theorem not_quiet_addError {p d : String} {u : Unit} : ¬ Yields Quiet (addError p d) u :=
  not_quiet_emit

namespace Leads

variable {I J K : E → Prop}

/-! ## Steps one after the other -/

theorem nil : Leads I (Reader.inOrder []) I := by
  intro v e e' he hrun
  rw [yields_inOrder_nil] at hrun
  exact hrun ▸ he

theorem cons {r : Reader E} {rs : List (Reader E)} (h : Leads I r J)
    (hs : Leads J (Reader.inOrder rs) K) : Leads I (Reader.inOrder (r :: rs)) K := by
  intro v e e' he hrun
  obtain ⟨e₁, hfirst, hrest⟩ := yields_inOrder_cons.1 hrun
  exact hs v e₁ e' (h v e e₁ he hfirst) hrest

/-- A step that keeps what is known before it. -/
theorem keep {r : Reader E} {rs : List (Reader E)} (h : Leads I r I)
    (hs : Leads I (Reader.inOrder rs) K) : Leads I (Reader.inOrder (r :: rs)) K :=
  cons h hs

/-- The step that brings about what is to be known afterwards; the others keep it. -/
theorem reach {r : Reader E} {rs : List (Reader E)} (h : Leads I r K)
    (hs : Leads K (Reader.inOrder rs) K) : Leads I (Reader.inOrder (r :: rs)) K :=
  cons h hs

/-- Steps each of which keeps a property. -/
theorem inOrder {rs : List (Reader E)} (h : ∀ r ∈ rs, Leads I r I) :
    Leads I (Reader.inOrder rs) I :=
  Keeps.inOrder h

theorem mark {set : E → E} (h : ∀ e, I e → J (set e)) : Leads I (Reader.mark set) J := by
  intro v e e' he hrun
  rw [Reader.mark, yields_pure] at hrun
  exact hrun ▸ h e he

/-- A flag is set in an entity of which something is known. -/
theorem marking {set : E → E} {r : Reader E}
    (h : Leads (fun e => ∃ e₀, I e₀ ∧ set e₀ = e) r J) : Leads I (Reader.marking set r) J :=
  fun v e e' he hrun => h v (set e) e' ⟨e, he, rfl⟩ hrun

/-- A flag does not matter to what is known. -/
theorem marked {set : E → E} {r : Reader E} (hset : ∀ e, I e → I (set e)) (h : Leads I r J) :
    Leads I (Reader.marking set r) J :=
  fun v e e' he hrun => h v (set e) e' (hset e he) hrun

theorem into {I' J' : A → Prop} {get : E → A} {put : A → E → E} {r : Reader A}
    (h : Leads I' r J') (hget : ∀ e, I e → I' (get e)) (hput : ∀ a e, I e → J' a → J (put a e)) :
    Leads I (Reader.into get put r) J := by
  intro v e e' he hrun
  obtain ⟨a, ha, hrest⟩ := yields_bind.1 hrun
  rw [yields_pure.1 hrest]
  exact hput a e he (h v (get e) a (hget e he) ha)

/-- A part whose contents do not matter. -/
theorem part {get : E → A} {put : A → E → E} {r : Reader A} (hput : ∀ a e, I e → J (put a e)) :
    Leads I (Reader.into get put r) J := by
  have hany : Leads (fun _ => True) r (fun _ => True) := fun _ _ _ _ _ => trivial
  exact into hany (fun _ _ => trivial) fun a e he _ => hput a e he

/-! ## Members -/

theorem ifMember {key : String} {r : Reader E} {absent : E → ParserM E} (h : Leads I r J)
    (habsent : Leads I (fun _ => absent) J) : Leads I (Reader.ifMember key r absent) J := by
  intro v e e' he hrun
  obtain ⟨o, -, hrest⟩ := yields_bind.1 hrun
  cases o with
  | some w => exact h w e e' he hrest
  | none => exact habsent v e e' he hrest

theorem skip (h : ∀ e, I e → J e) : Leads I (fun _ => Reader.skip) J := by
  intro v e e' he hrun
  have heq : e' = e := yields_pure.1 hrun
  exact heq ▸ h e he

theorem without {set : E → E} (h : ∀ e, I e → J (set e)) :
    Leads I (fun _ => Reader.without set) J :=
  mark h

/-- The error of a missing member. -/
theorem mandatory {p d : String} : Leads I (fun _ => Reader.mandatory p d) J := by
  intro v e e' he hrun
  obtain ⟨u, hreport, -⟩ := yields_bind.1 hrun
  exact absurd hreport not_quiet_addError

theorem optional {key : String} {r : Reader E} (h : Leads I r J) (hskip : ∀ e, I e → J e) :
    Leads I (Reader.ifMember key r Reader.skip) J :=
  ifMember h (skip hskip)

theorem flagged {key : String} {r : Reader E} {set : E → E} (h : Leads I r J)
    (hset : ∀ e, I e → J (set e)) : Leads I (Reader.ifMember key r (Reader.without set)) J :=
  ifMember h (without hset)

theorem demanded {key : String} {r : Reader E} {p d : String} (h : Leads I r J) :
    Leads I (Reader.ifMember key r (Reader.mandatory p d)) J :=
  ifMember h mandatory

/-! ## Values -/

theorem leaf {view : Json → Option A} {p d : String} {put : A → E → E}
    (h : ∀ a e, I e → J (put a e)) : Leads I (Reader.leaf view p d put) J := by
  intro v e e' he hrun
  rw [Reader.leaf] at hrun
  cases hv : view v with
  | some a =>
    rw [hv] at hrun
    rw [yields_pure.1 hrun]
    exact h a e he
  | none =>
    rw [hv] at hrun
    obtain ⟨u, hreport, -⟩ := yields_bind.1 hrun
    exact absurd hreport not_quiet_addError

theorem nonEmptyString {p key field : String} {put : String → E → E}
    (h : ∀ s e, I e → J (put s e)) : Leads I (Reader.nonEmptyString p key field put) J := by
  intro v e e' he hrun
  rw [Reader.nonEmptyString] at hrun
  cases hv : asString v with
  | some s =>
    simp only [hv] at hrun
    split_ifs at hrun
    · obtain ⟨u, hreport, -⟩ := yields_bind.1 hrun
      exact absurd hreport not_quiet_addError
    · rw [yields_pure.1 hrun]
      exact h s e he
  | none =>
    rw [hv] at hrun
    obtain ⟨u, hreport, -⟩ := yields_bind.1 hrun
    exact absurd hreport not_quiet_addError

/-- An array that is read in place, where something else may be done about another value. -/
theorem arrayOr {element : Json → ParserM (Option A)} {put : List A → E → E}
    {other : E → ParserM E} {P : A → Prop} (helement : Gives element P)
    (h : ∀ as e, I e → (∀ a ∈ as, P a) → J (put as e))
    (hother : ∀ e e', I e → Yields Quiet (other e) e' → J e') :
    Leads I (fun v e => match asArray v with
      | some xs => collect element xs >>= fun as => pure (put as e)
      | none => other e) J := by
  intro v e e' he hrun
  cases hv : asArray v with
  | some xs =>
    simp only [hv] at hrun
    obtain ⟨as, has, hrest⟩ := yields_bind.1 hrun
    rw [yields_pure.1 hrest]
    refine h as e he fun a ha => ?_
    obtain ⟨x, -, hx⟩ := has.mem_collect a ha
    exact helement x a hx
  | none =>
    simp only [hv] at hrun
    exact hother e e' he hrun

theorem array {p key : String} {element : Json → ParserM (Option A)} {put : List A → E → E}
    {P : A → Prop} (helement : Gives element P)
    (h : ∀ as e, I e → (∀ a ∈ as, P a) → J (put as e)) :
    Leads I (Reader.array p key element put) J := by
  refine arrayOr helement h fun e e' _ hrun => ?_
  obtain ⟨u, hreport, -⟩ := yields_bind.1 hrun
  exact absurd hreport not_quiet_addError

/-- An array whose elements do not matter. -/
theorem anyArray {p key : String} {element : Json → ParserM (Option A)} {put : List A → E → E}
    (h : ∀ as e, I e → J (put as e)) : Leads I (Reader.array p key element put) J := by
  have hany : Gives element fun _ => True := fun _ _ _ => trivial
  exact array hany fun as e he _ => h as e he

theorem object {p key : String} {r : Reader E} (h : Leads I r J) :
    Leads I (Reader.object p key r) J := by
  intro v e e' he hrun
  rw [Reader.object] at hrun
  split_ifs at hrun
  · exact h v e e' he hrun
  · obtain ⟨u, hreport, -⟩ := yields_bind.1 hrun
    exact absurd hreport not_quiet_addError

end Leads

/-! ## Elements -/

namespace Gives

variable {P : A → Prop}

theorem fresh {I : A → Prop} {start : A} {r : Reader A} (h : Leads I r P) (hstart : I start) :
    Gives (Reader.fresh start r) P := by
  intro v a hrun
  obtain ⟨b, hb, hrest⟩ := yields_bind.1 hrun
  rw [yields_pure, Option.some.injEq] at hrest
  subst hrest
  exact h v start a hstart hb

theorem objectElement {p key : String} {element : Json → ParserM (Option A)}
    (h : Gives element P) : Gives (Reader.objectElement p key element) P := by
  intro v a hrun
  rw [Reader.objectElement] at hrun
  split_ifs at hrun
  · exact h v a hrun
  · obtain ⟨u, hreport, -⟩ := yields_bind.1 hrun
    exact absurd hreport not_quiet_addError

end Gives

/-! ## One step among others -/

/-- The reader leaves this part of an entity as it is. -/
def Spares (f : E → A) (r : Reader E) : Prop := ∀ a, Leads (f · = a) r (f · = a)

/-- What the reader of a value makes of this part of an entity. -/
def Turns (f : E → A) (r : Reader E) (R : Json → A → A → Prop) : Prop :=
  ∀ v e e', Yields Quiet (r v e) e' → R v (f e) (f e')

namespace Turns

variable {f : E → A} {R : Json → A → A → Prop} {r : Reader E} {rs : List (Reader E)}

/-- A step before the one that changes the part. -/
theorem before (h : Spares f r) (hs : Turns f (Reader.inOrder rs) R) :
    Turns f (Reader.inOrder (r :: rs)) R := by
  intro v e e' hrun
  obtain ⟨e₁, hfirst, hrest⟩ := yields_inOrder_cons.1 hrun
  have hsame : f e₁ = f e := h (f e) v e e₁ rfl hfirst
  exact hsame ▸ hs v e₁ e' hrest

/-- The step that changes the part; the others leave it. -/
theorem here (h : Turns f r R) (hs : Spares f (Reader.inOrder rs)) :
    Turns f (Reader.inOrder (r :: rs)) R := by
  intro v e e' hrun
  obtain ⟨e₁, hfirst, hrest⟩ := yields_inOrder_cons.1 hrun
  have hsame : f e' = f e₁ := hs (f e₁) v e₁ e' rfl hrest
  exact hsame ▸ h v e e₁ hfirst

end Turns

end ProvisioningValidator
