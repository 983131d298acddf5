import DistributedBloomFilter.Auth.Interceptor
import DistributedBloomFilter.Lib.Run

/-!
# Forged requests

What requests put into a run of API key checks do to the verdicts on the others.  A check stores the pair of API key
and timestamp before it looks at the signature, so a request without the right signature leaves the same trace as one
that has it, and a later request with the same pair is taken for a replay.  `verdicts_eq_iff` says exactly when the
verdicts on the original requests stay what they are: no request was put in front of the first original one with its
pair, unless the original would be refused anyway.
-/

namespace DistributedBloomFilter

/-- A call of `validateAPIKeyAuth` and the clock when it is made. -/
structure AuthCall where
  now : Time
  auth : APIMetadata
  method : String
deriving DecidableEq, Repr

/-- A call of the run itself, or one put into it. -/
inductive Origin where
  | original
  | inserted
deriving DecidableEq, Repr

namespace AuthCall

def key (c : AuthCall) : String := replayKey c.auth.apiKey c.auth.timestamp

/-- The API key has a secret and the timestamp is in time. -/
def Known (secretOf : String → String) (c : AuthCall) : Prop :=
  c.auth.apiKey ≠ "" ∧ secretOf c.auth.apiKey ≠ "" ∧ ¬ Expired c.now c.auth.timestamp

/-- The signature is the HMAC of API key, timestamp and method. -/
def Signed (secretOf : String → String) (c : AuthCall) : Prop :=
  c.auth.signature = computeSignature c.auth.apiKey c.auth.timestamp c.method (secretOf c.auth.apiKey)

/-- The same call with an empty signature. -/
def unsigned (c : AuthCall) : AuthCall := { c with auth := { c.auth with signature := "" } }

instance (secretOf : String → String) (c : AuthCall) : Decidable (c.Known secretOf) :=
  inferInstanceAs (Decidable (_ ∧ _))

instance (secretOf : String → String) (c : AuthCall) : Decidable (c.Signed secretOf) :=
  inferInstanceAs (Decidable (_ = _))

end AuthCall

namespace AuthInterceptor

def accepts (a : AuthInterceptor) (c : AuthCall) : Bool :=
  match (a.validateAPIKeyAuth c.now c.auth c.method).2 with
  | .ok () => true
  | .error _ => false

def afterCall (a : AuthInterceptor) (c : AuthCall) : AuthInterceptor :=
  (a.validateAPIKeyAuth c.now c.auth c.method).1

/-- The verdicts on the original calls of a run. -/
def verdicts : AuthInterceptor → List (Origin × AuthCall) → List Bool
  | _, [] => []
  | a, (.original, c) :: run => a.accepts c :: (a.afterCall c).verdicts run
  | a, (.inserted, c) :: run => (a.afterCall c).verdicts run

/-- The run without the inserted calls. -/
def originals (run : List (Origin × AuthCall)) : List (Origin × AuthCall) := run.filter fun e => e.1 = .original

/-! ### One check -/

/-- What a check does, by cases: it passes on to the signature or it refuses and changes nothing. -/
private theorem check_spec (a : AuthInterceptor) (c : AuthCall) :
    (c.Known a.secretOf ∧ c.key ∉ a.seenRequests ∧ (a.accepts c = true ↔ c.Signed a.secretOf) ∧
      a.afterCall c = { a with
        seenRequests := a.seenRequests.insert c.key true
        timestampCount := a.timestampCount + 1 }) ∨
    (¬ (c.Known a.secretOf ∧ c.key ∉ a.seenRequests) ∧ a.accepts c = false ∧ a.afterCall c = a) := by
  have hpasses : a.Passes c.now c.auth ↔ c.Known a.secretOf ∧ c.key ∉ a.seenRequests :=
    ⟨fun h => ⟨⟨h.apiKey, h.secret, h.time⟩, h.unseen⟩, fun h => ⟨h.1.1, h.1.2.1, h.1.2.2, h.2⟩⟩
  have haccepts : a.accepts c = true ↔ (a.validateAPIKeyAuth c.now c.auth c.method).2 = .ok () := by
    unfold accepts
    split
    · rename_i hok
      exact iff_of_true rfl hok
    · rename_i failure hfailed
      exact iff_of_false Bool.false_ne_true fun h => by rw [hfailed] at h; cases h
  rcases a.validateAPIKeyAuth_spec c.now c.auth c.method with ⟨h, hstored, hok⟩ | ⟨h, failure, hfailed⟩
  · obtain ⟨hknown, hseen⟩ := hpasses.1 h
    exact .inl ⟨hknown, hseen, haccepts.trans hok, hstored⟩
  · refine .inr ⟨fun hc => h (hpasses.2 hc), ?_, ?_⟩
    · rw [accepts, hfailed]
    · rw [afterCall, hfailed]

theorem accepts_iff {a : AuthInterceptor} {c : AuthCall} :
    a.accepts c = true ↔ c.Known a.secretOf ∧ c.Signed a.secretOf ∧ c.key ∉ a.seenRequests := by
  rcases a.check_spec c with ⟨hknown, hseen, hsig, -⟩ | ⟨hno, hfalse, -⟩
  · rw [hsig]
    exact ⟨fun h => ⟨hknown, h, hseen⟩, fun h => h.2.1⟩
  · rw [hfalse]
    exact iff_of_false Bool.false_ne_true fun h => hno ⟨h.1, h.2.2⟩

theorem secretOf_afterCall (a : AuthInterceptor) (c : AuthCall) : (a.afterCall c).secretOf = a.secretOf := by
  rcases a.check_spec c with ⟨-, -, -, h⟩ | ⟨-, -, h⟩
  · rw [h]; rfl
  · rw [h]

/-- A check stores the pair of every call with a known key and a timestamp in time, whatever its signature. -/
theorem mem_seenRequests_afterCall {a : AuthInterceptor} {c : AuthCall} {k : String} :
    k ∈ (a.afterCall c).seenRequests ↔ k ∈ a.seenRequests ∨ c.Known a.secretOf ∧ c.key = k := by
  rcases a.check_spec c with ⟨hknown, hseen, -, h⟩ | ⟨hno, -, h⟩
  · rw [h, AList.mem_insert, or_comm]
    exact or_congr_right ⟨fun hk => ⟨hknown, hk.symm⟩, fun hk => hk.2.symm⟩
  · rw [h]
    refine ⟨.inl, fun hk => hk.elim id fun hnew => ?_⟩
    exact hnew.2 ▸ not_not.1 fun hseen => hno ⟨hnew.1, hseen⟩

/-! ### Runs with inserted calls -/

/-- One of the calls of the given origin stores the pair `k`. -/
def StoredBy (secretOf : String → String) (o : Origin) (calls : List (Origin × AuthCall)) (k : String) : Prop :=
  ∃ e ∈ calls, e.1 = o ∧ e.2.Known secretOf ∧ e.2.key = k

/-- An inserted call comes before a valid original one with the same pair only if the pair is known already, from
before the run or from an earlier original call. -/
def Undisturbed (a : AuthInterceptor) (run : List (Origin × AuthCall)) : Prop :=
  ∀ before c after, run = before ++ (.original, c) :: after → c.Known a.secretOf → c.Signed a.secretOf →
    StoredBy a.secretOf .inserted before c.key →
      c.key ∈ a.seenRequests ∨ StoredBy a.secretOf .original before c.key

theorem storedBy_cons {secretOf : String → String} {o o' : Origin} {c : AuthCall} {calls : List (Origin × AuthCall)}
    {k : String} :
    StoredBy secretOf o ((o', c) :: calls) k ↔
      (o' = o ∧ c.Known secretOf ∧ c.key = k) ∨ StoredBy secretOf o calls k := by
  simp [StoredBy]

/-- Two states with the same secrets, of which the first has seen more, decide a call alike unless it is a valid one
that only the first has seen. -/
private theorem accepts_eq_iff {secretOf : String → String} {a b : AuthInterceptor} (ha : a.secretOf = secretOf)
    (hb : b.secretOf = secretOf) (c : AuthCall) (hsub : c.key ∈ b.seenRequests → c.key ∈ a.seenRequests) :
    a.accepts c = b.accepts c ↔
      (c.Known secretOf → c.Signed secretOf → c.key ∈ a.seenRequests → c.key ∈ b.seenRequests) := by
  rw [Bool.eq_iff_iff, accepts_iff, accepts_iff, ha, hb]
  constructor
  · intro h hknown hsigned hseen
    by_contra hnew
    exact (h.2 ⟨hknown, hsigned, hnew⟩).2.2 hseen
  · intro h
    exact and_congr_right fun hknown => and_congr_right fun hsigned => not_congr ⟨h hknown hsigned, hsub⟩

/-- The verdicts from two states, of which the first has seen more: at every valid original call that the second
accepts, neither the first state nor an inserted call has its pair. -/
private theorem verdicts_eq_iff_of_subset {secretOf : String → String} (run : List (Origin × AuthCall))
    {a b : AuthInterceptor} (ha : a.secretOf = secretOf) (hb : b.secretOf = secretOf)
    (hsub : ∀ k, k ∈ b.seenRequests → k ∈ a.seenRequests) :
    a.verdicts run = b.verdicts (originals run) ↔
      ∀ before e after, run = before ++ e :: after → e.1 = .original → e.2.Known secretOf → e.2.Signed secretOf →
        e.2.key ∈ a.seenRequests ∨ StoredBy secretOf .inserted before e.2.key →
          e.2.key ∈ b.seenRequests ∨ StoredBy secretOf .original before e.2.key := by
  induction run generalizing a b with
  | nil => simp [verdicts, originals]
  | cons e run ih =>
    obtain ⟨o, c⟩ := e
    rw [Run.forall_split_cons]
    cases o with
    | inserted =>
      have hrun := @ih (a.afterCall c) b ((a.secretOf_afterCall c).trans ha) hb
        fun k hk => mem_seenRequests_afterCall.2 (.inl (hsub k hk))
      have hleft : a.verdicts ((.inserted, c) :: run) = (a.afterCall c).verdicts run := rfl
      have hright : originals ((.inserted, c) :: run) = originals run := rfl
      rw [hleft, hright, hrun]
      simp only [storedBy_cons, mem_seenRequests_afterCall, ha]
      simp [or_assoc]
    | original =>
      have hrun := @ih (a.afterCall c) (b.afterCall c) ((a.secretOf_afterCall c).trans ha)
        ((b.secretOf_afterCall c).trans hb) fun k hk => by
          rw [mem_seenRequests_afterCall, ha]
          rw [mem_seenRequests_afterCall, hb] at hk
          exact hk.imp_left (hsub k)
      have hleft : a.verdicts ((.original, c) :: run) = a.accepts c :: (a.afterCall c).verdicts run := rfl
      have hright : b.verdicts (originals ((.original, c) :: run)) =
          b.accepts c :: (b.afterCall c).verdicts (originals run) := rfl
      rw [hleft, hright, List.cons.injEq, accepts_eq_iff ha hb c (hsub c.key), hrun]
      simp only [storedBy_cons, mem_seenRequests_afterCall, ha, hb]
      refine and_congr (by simp [StoredBy]) ?_
      -- a pair that this call stores is in both states from here on
      refine forall₄_congr fun before e after heq => ?_
      refine imp_congr_right fun _ => imp_congr_right fun _ => imp_congr_right fun _ => ?_
      simp only [reduceCtorEq, false_and, false_or, true_and]
      rw [or_assoc, or_assoc]
      constructor
      · exact fun h hdisturbed => h (hdisturbed.imp_right .inr)
      · rintro h (hseen | hstored | hinserted)
        · exact h (.inl hseen)
        · exact .inr (.inl hstored)
        · exact h (.inr hinserted)

/-- The verdicts on the calls of a run, at any clock times, stay what they are when other calls are put into it,
forged or not, exactly when the run is undisturbed. -/
theorem verdicts_eq_iff (a : AuthInterceptor) (run : List (Origin × AuthCall)) :
    a.verdicts run = a.verdicts (originals run) ↔ a.Undisturbed run := by
  rw [verdicts_eq_iff_of_subset run rfl rfl fun _ => id]
  constructor
  · intro h before c after heq hknown hsigned hinserted
    exact h before (.original, c) after heq rfl hknown hsigned (.inr hinserted)
  · rintro h before ⟨o, c⟩ after heq rfl hknown hsigned (hseen | hinserted)
    · exact .inl hseen
    · exact h before c after heq hknown hsigned hinserted

/-- The call without its signature leaves the same trace. -/
theorem mem_seenRequests_unsigned {a : AuthInterceptor} {c : AuthCall} (h : c.Known a.secretOf) :
    c.key ∈ (a.afterCall c.unsigned).seenRequests :=
  mem_seenRequests_afterCall.2 (.inr ⟨h, rfl⟩)

/-- The request that a client makes. -/
def genuineCall : AuthCall := ⟨1700000000000000000, generateAPIKeyToken 1700000000000000000 "k" "s" "/m", "/m"⟩

/-- With the unsigned request in front of it, the genuine one is refused. -/
theorem forged_changes_verdict :
    ¬ genuineCall.unsigned.Signed keyInterceptor.secretOf ∧
    keyInterceptor.verdicts [(.original, genuineCall)] = [true] ∧
    keyInterceptor.verdicts [(.inserted, genuineCall.unsigned), (.original, genuineCall)] = [false] := by
  have hknown : genuineCall.Known keyInterceptor.secretOf := by decide
  have haccepts : keyInterceptor.accepts genuineCall = true :=
    accepts_iff.2 ⟨hknown, rfl, AList.notMem_empty _⟩
  have hrefuses : (keyInterceptor.afterCall genuineCall.unsigned).accepts genuineCall = false := by
    rw [Bool.eq_false_iff, ne_eq, accepts_iff]
    exact fun h => h.2.2 (mem_seenRequests_unsigned hknown)
  exact ⟨by decide +kernel, by rw [verdicts, haccepts]; rfl, by rw [verdicts, verdicts, hrefuses]; rfl⟩

end AuthInterceptor

end DistributedBloomFilter
