import Hnatsd.Misc.Runs

/-!
# Parties on a datagram network

Parties that send messages over a network which may drop, duplicate, reorder and delay them: the
wire holds every message ever sent, and any of them may arrive at its addressee at any time, any
number of times or never. An arrival names the message by its place on the wire.
-/

namespace Hnatsd.Misc

/-- What a party does of its own accord, with the messages it sends; to whom a message is addressed;
and what its arrival does. -/
structure Protocol (σ α μ : Type) where
  act : σ → α → Option (σ × List μ)
  addressed : σ → μ → Bool
  arrive : σ → μ → Option σ

structure Parties (ι σ μ : Type) where
  party : ι → σ
  wire : List μ

inductive PartyAction (ι α : Type) where
  | act (i : ι) (a : α)
  | arrive (i : ι) (k : Nat)

variable {ι σ α μ : Type} [DecidableEq ι]

def Parties.update (s : Parties ι σ μ) (i : ι) (p : σ) (sent : List μ) : Parties ι σ μ where
  party := Function.update s.party i p
  wire := s.wire ++ sent

/-- One party moves. -/
def Protocol.step (P : Protocol σ α μ) (s : Parties ι σ μ) :
    PartyAction ι α → Option (Parties ι σ μ)
  | .act i a => (P.act (s.party i) a).map fun (p, sent) => s.update i p sent
  | .arrive i k =>
      match s.wire[k]? with
      | some m =>
          if P.addressed (s.party i) m then
            (P.arrive (s.party i) m).map fun p => s.update i p []
          else none
      | none => none

@[simp] theorem Parties.update_self (s : Parties ι σ μ) (i : ι) (p : σ) (sent : List μ) :
    (s.update i p sent).party i = p := Function.update_self ..

@[simp] theorem Parties.update_of_ne (s : Parties ι σ μ) {i j : ι} (ne : j ≠ i) (p : σ)
    (sent : List μ) : (s.update i p sent).party j = s.party j := Function.update_of_ne ne ..

namespace Protocol

theorem step_arrive {P : Protocol σ α μ} {s s' : Parties ι σ μ} {i : ι} {k : Nat}
    (stepped : P.step s (.arrive i k) = some s') :
    ∃ m p, s.wire[k]? = some m ∧ P.addressed (s.party i) m = true ∧
      P.arrive (s.party i) m = some p ∧ s' = s.update i p [] := by
  simp only [step] at stepped
  split at stepped
  · rename_i m found
    split_ifs at stepped with addressed
    obtain ⟨p, arrived, rfl⟩ := Option.map_eq_some_iff.mp stepped
    exact ⟨m, p, found, addressed, arrived, rfl⟩
  · cases stepped

/-- A step is a party's own action or an arrival. -/
theorem step_cases {P : Protocol σ α μ} {s s' : Parties ι σ μ} {e : PartyAction ι α}
    (stepped : P.step s e = some s') :
    (∃ i a p sent, e = .act i a ∧ P.act (s.party i) a = some (p, sent) ∧ s' = s.update i p sent) ∨
      ∃ i k m p, e = .arrive i k ∧ m ∈ s.wire ∧ P.addressed (s.party i) m = true ∧
        P.arrive (s.party i) m = some p ∧ s' = s.update i p [] := by
  cases e with
  | act i a =>
    obtain ⟨⟨p, sent⟩, acted, rfl⟩ := Option.map_eq_some_iff.mp stepped
    exact Or.inl ⟨i, a, p, sent, rfl, acted, rfl⟩
  | arrive i k =>
    obtain ⟨m, p, found, addressed, arrived, rfl⟩ := step_arrive stepped
    exact Or.inr ⟨i, k, m, p, rfl, List.mem_of_getElem? found, addressed, arrived, rfl⟩

/-- An invariant of one party that its own guarded actions and all arrivals keep. -/
theorem local_invariant {P : Protocol σ α μ} {i : ι} {Inv : σ → Prop}
    {Guard : σ → α → Prop}
    (acts : ∀ p a p' sent, Inv p → Guard p a → P.act p a = some (p', sent) → Inv p')
    (arrives : ∀ p m p', Inv p → P.arrive p m = some p' → Inv p')
    (s : Parties ι σ μ) (e : PartyAction ι α) (s' : Parties ι σ μ) (inv : Inv (s.party i))
    (guard : ∀ a, e = .act i a → Guard (s.party i) a) (stepped : P.step s e = some s') :
    Inv (s'.party i) := by
  rcases step_cases stepped with
    ⟨j, a, p, sent, rfl, acted, rfl⟩ | ⟨j, k, m, p, rfl, -, -, arrived, rfl⟩
  · by_cases same : i = j
    · subst same
      rw [Parties.update_self]
      exact acts _ a p sent inv (guard a rfl) acted
    · rwa [Parties.update_of_ne s same]
  · by_cases same : i = j
    · subst same
      rw [Parties.update_self]
      exact arrives _ m p inv arrived
    · rwa [Parties.update_of_ne s same]

end Protocol

/-- Every message on the wire has a party that vouches for it. What a party knows may rest on the
messages sent so far. -/
structure Vouched (Knows : ι → List μ → σ → Prop) (Vouches : σ → μ → Prop) (s : Parties ι σ μ) :
    Prop where
  knows : ∀ i, Knows i s.wire (s.party i)
  wire : ∀ m ∈ s.wire, ∃ i, Vouches (s.party i) m

section Vouched

variable {Knows : ι → List μ → σ → Prop} {Vouches : σ → μ → Prop}

/-- A party that moves keeps vouching for what it has vouched for. -/
theorem Vouched.update {s : Parties ι σ μ} (vouched : Vouched Knows Vouches s)
    (grows : ∀ i wire sent p, Knows i wire p → Knows i (wire ++ sent) p) {i : ι} {p : σ}
    {sent : List μ} (knows : Knows i s.wire p) (keeps : ∀ m, Vouches (s.party i) m → Vouches p m)
    (sends : ∀ m ∈ sent, Vouches p m) : Vouched Knows Vouches (s.update i p sent) where
  knows j := by
    apply grows
    by_cases same : j = i
    · subst same
      rwa [Parties.update_self]
    · rw [Parties.update_of_ne s same]
      exact vouched.knows j
  wire m mem := by
    rcases List.mem_append.mp mem with old | new
    · obtain ⟨j, vouches⟩ := vouched.wire m old
      refine ⟨j, ?_⟩
      by_cases same : j = i
      · subst same
        rw [Parties.update_self]
        exact keeps m vouches
      · rwa [Parties.update_of_ne s same]
    · refine ⟨i, ?_⟩
      rw [Parties.update_self]
      exact sends m new

theorem Vouched.step {P : Protocol σ α μ} {s s' : Parties ι σ μ} {e : PartyAction ι α}
    (vouched : Vouched Knows Vouches s) (Guard : σ → α → Prop)
    (grows : ∀ i wire sent p, Knows i wire p → Knows i (wire ++ sent) p)
    (acts : ∀ i wire p a p' sent, Knows i wire p → Guard p a → P.act p a = some (p', sent) →
      Knows i wire p' ∧ (∀ m, Vouches p m → Vouches p' m) ∧ ∀ m ∈ sent, Vouches p' m)
    (arrives : ∀ i wire p q m p', Knows i wire p → m ∈ wire → Vouches q m →
      P.arrive p m = some p' → Knows i wire p' ∧ ∀ m, Vouches p m → Vouches p' m)
    (guard : ∀ i a, e = .act i a → Guard (s.party i) a) (stepped : P.step s e = some s') :
    Vouched Knows Vouches s' := by
  rcases Protocol.step_cases stepped with
    ⟨i, a, p, sent, rfl, acted, rfl⟩ | ⟨i, k, m, p, rfl, onWire, -, arrived, rfl⟩
  · obtain ⟨knows, keeps, sends⟩ :=
      acts i s.wire _ a p sent (vouched.knows i) (guard i a rfl) acted
    exact vouched.update grows knows keeps sends
  · obtain ⟨j, vouches⟩ := vouched.wire m onWire
    obtain ⟨knows, keeps⟩ := arrives i s.wire _ _ m p (vouched.knows i) onWire vouches arrived
    exact vouched.update grows knows keeps fun _ mem => nomatch mem

end Vouched

end Hnatsd.Misc
