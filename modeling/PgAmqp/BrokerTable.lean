import Mathlib.Data.List.Sort
import Mathlib.Data.List.Perm.Basic
import Mathlib.Data.String.Basic
import PgAmqp.Changes

/-!
# The table of the brokers

`amqp.broker` has the hosts of every broker, and the lookup query answers those of one broker,
ordered by host and port. These are the rest of the primary key, so the order leaves nothing
open, and the answer depends on nothing but the rows of the broker.
-/
namespace PgAmqp

/-- A row of `amqp.broker`. -/
structure ConfiguredHost where
  brokerId : Int
  host : String
  port : Int
  vhost : Option String
  username : Option String
  password : Option String
  ssl : Bool
  sslVerify : Bool
  sslCacert : Option String
  sslCert : Option String
  sslKey : Option String
  deriving DecidableEq, Repr

namespace ConfiguredHost

/-- `PRIMARY KEY (broker_id, host, port)`. -/
def key (r : ConfiguredHost) : Int × String × Int := (r.brokerId, r.host, r.port)

/-- The columns that the lookup query selects. -/
def columns (r : ConfiguredHost) : BrokerRow where
  host := some r.host
  port := some r.port
  vhost := r.vhost
  username := r.username
  password := r.password
  ssl := some r.ssl
  sslVerify := some r.sslVerify
  sslCacert := r.sslCacert
  sslCert := r.sslCert
  sslKey := r.sslKey

end ConfiguredHost

/-- `amqp.broker` as a snapshot shows it, in the order of the heap. -/
structure BrokerTable where
  rows : List ConfiguredHost
  keyed : (rows.map ConfiguredHost.key).Nodup

/-- How the database compares texts. -/
structure Collation where
  le : String → String → Bool
  total : ∀ a b, le a b = true ∨ le b a = true
  trans : ∀ a b c, le a b = true → le b c = true → le a c = true
  antisymm : ∀ a b, le a b = true → le b a = true → a = b

/-- The collation `C`. -/
def Collation.byCodePoint : Collation where
  le := fun a b => decide (a ≤ b)
  total := fun a b => by simpa using String.le_total a b
  trans := fun a b c => by simpa using String.le_trans
  antisymm := fun a b => by simpa using String.le_antisymm

/-- `ORDER BY host DESC, port`. -/
def Collation.Before (coll : Collation) (r r' : ConfiguredHost) : Prop :=
  (r.host ≠ r'.host ∧ coll.le r'.host r.host = true) ∨ (r.host = r'.host ∧ r.port ≤ r'.port)

section Order

variable (coll : Collation)

instance : DecidableRel coll.Before := fun _ _ => inferInstanceAs (Decidable (_ ∨ _))

instance : Std.Total coll.Before where
  total := by
    intro r r'
    by_cases hhost : r.host = r'.host
    · rcases Int.le_total r.port r'.port with hport | hport
      · exact .inl (.inr ⟨hhost, hport⟩)
      · exact .inr (.inr ⟨hhost.symm, hport⟩)
    · rcases coll.total r.host r'.host with hle | hle
      · exact .inr (.inl ⟨Ne.symm hhost, hle⟩)
      · exact .inl (.inl ⟨hhost, hle⟩)

instance : IsTrans ConfiguredHost coll.Before where
  trans := by
    rintro r r' r'' (⟨hne, hle⟩ | ⟨heq, hport⟩) (⟨hne', hle'⟩ | ⟨heq', hport'⟩)
    · refine .inl ⟨fun h => ?_, coll.trans _ _ _ hle' hle⟩
      rw [← h] at hle'
      exact hne (coll.antisymm _ _ hle' hle)
    · rw [heq'] at hne hle
      exact .inl ⟨hne, hle⟩
    · rw [← heq] at hne' hle'
      exact .inl ⟨hne', hle'⟩
    · exact .inr ⟨heq.trans heq', Int.le_trans hport hport'⟩

/-- Rows that come before each other agree in what the order looks at. -/
theorem Collation.before_antisymm {r r' : ConfiguredHost} (h : coll.Before r r') (h' : coll.Before r' r) :
    r.host = r'.host ∧ r.port = r'.port := by
  rcases h with ⟨hne, hle⟩ | ⟨heq, hport⟩ <;> rcases h' with ⟨hne', hle'⟩ | ⟨heq', hport'⟩
  · exact absurd (coll.antisymm _ _ hle' hle) hne
  · exact absurd heq'.symm hne
  · exact absurd heq.symm hne'
  · exact ⟨heq, Int.le_antisymm hport hport'⟩

end Order

namespace BrokerTable

/-- The rows that the lookup query of a broker answers, in its order. -/
def lookup (t : BrokerTable) (coll : Collation) (b : Int) : List BrokerRow :=
  ((t.rows.filter (·.brokerId = b)).insertionSort coll.Before).map ConfiguredHost.columns

/-- The host list of a broker as it is configured. -/
def hosts (t : BrokerTable) (coll : Collation) (b : Int) : List BrokerHost := (t.lookup coll b).map BrokerRow.toHost

/-- The hosts of a broker depend on its rows, not on the others and not on how they are arranged. -/
theorem hosts_congr {t t' : BrokerTable} {b : Int} (coll : Collation)
    (h : ∀ r, r.brokerId = b → (r ∈ t'.rows ↔ r ∈ t.rows)) : t'.hosts coll b = t.hosts coll b := by
  have nodup : ∀ u : BrokerTable, (u.rows.filter (·.brokerId = b)).Nodup := fun u =>
    (List.Nodup.of_map _ u.keyed).filter _
  have hperm : (t'.rows.filter (·.brokerId = b)).Perm (t.rows.filter (·.brokerId = b)) := by
    refine (List.perm_ext_iff_of_nodup (nodup t') (nodup t)).mpr fun r => ?_
    simp only [List.mem_filter, decide_eq_true_eq]
    exact and_congr_left (h r)
  have hsorted : (t'.rows.filter (·.brokerId = b)).insertionSort coll.Before =
      (t.rows.filter (·.brokerId = b)).insertionSort coll.Before := by
    refine List.Perm.eq_of_pairwise (fun r r' hr hr' hle hle' => ?_) (List.pairwise_insertionSort _ _)
      (List.pairwise_insertionSort _ _)
      (((List.perm_insertionSort _ _).trans hperm).trans (List.perm_insertionSort _ _).symm)
    have hr := hperm.mem_iff.mp ((List.mem_insertionSort _).mp hr)
    have hr' := (List.mem_insertionSort _).mp hr'
    simp only [List.mem_filter, decide_eq_true_eq] at hr hr'
    obtain ⟨hhost, hport⟩ := coll.before_antisymm hle hle'
    refine List.inj_on_of_nodup_map t.keyed hr.1 hr'.1 ?_
    rw [ConfiguredHost.key, ConfiguredHost.key, hr.2, hr'.2, hhost, hport]
  unfold hosts lookup
  rw [hsorted]

end BrokerTable

end PgAmqp
