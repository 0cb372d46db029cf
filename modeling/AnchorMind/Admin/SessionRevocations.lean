import AnchorMind.Admin.AdminSessions

/-!
# Revoked sessions stay revoked

The invariant of the sessions: every row of a family has the family's account, a session
with a successor is revoked, and a standing session of a family that a committed revocation
covers came about by the rotation of a role change.  Guarded steps keep it.
-/

namespace AnchorMind.Admin.AdminSessions

open Kernel.Transition List

structure Inv (state : State) : Prop where
  families : ∀ session ∈ state.sessions, session.familyId < state.sessions.length
  owners : ∀ first ∈ state.sessions, ∀ second ∈ state.sessions,
    first.familyId = second.familyId -> first.userId = second.userId
  /-- A session that was continued is revoked. -/
  retired : ∀ session ∈ state.sessions, ∀ old, session.continues = some old ->
    ∃ row, state.sessions[old]? = some row /\ row.revoked.isSome = true
  single : ∀ (i j : Nat) (first second : Session) (old : Nat),
    state.sessions[i]? = some first -> state.sessions[j]? = some second ->
      first.continues = some old -> second.continues = some old ->
        first.revoked = none -> second.revoked = none -> i = j
  /-- Every session of a covered family is in the scope. -/
  covered : ∀ job ∈ state.jobs, ∀ familyId ∈ job.covered,
    familyId < state.sessions.length /\
      ∀ session ∈ state.sessions, session.familyId = familyId ->
        job.scope.matches session = true
  committed : ∀ (k : Nat) (job : Job), state.jobs[k]? = some job -> job.state = .committed ->
    ∀ session ∈ state.sessions, session.familyId ∈ job.covered ->
      session.revoked = none -> k ∈ session.excepted
  requests : ∀ request ∈ state.requests,
    ∃ row, state.sessions[request.principal.sessionId]? = some row /\
      row.familyId = request.principal.familyId /\ row.userId = request.principal.userId
  /-- A request inserts only after its session was marked. -/
  marked : ∀ request ∈ state.requests, ∀ job change,
    request.point = .inserting job change ->
      ∃ row, state.sessions[request.principal.sessionId]? = some row /\
        row.revoked.isSome = true

/-- What an `UPDATE` leaves of a row. -/
structure Keeps (old new : Session) : Prop where
  familyId : new.familyId = old.familyId
  userId : new.userId = old.userId
  continues : new.continues = old.continues
  excepted : new.excepted = old.excepted
  revoked : old.revoked.isSome = true -> new.revoked.isSome = true

theorem Keeps.refl (session : Session) : Keeps session session :=
  ⟨rfl, rfl, rfl, rfl, id⟩

theorem Keeps.standing {old new : Session} (hkeeps : Keeps old new) (hnew : new.revoked = none) :
    old.revoked = none := by
  cases hold : old.revoked with
  | none => rfl
  | some reason =>
    have hsome := hkeeps.revoked (by rw [hold]; rfl)
    rw [hnew] at hsome
    cases hsome

structure Rewritten (before after : List Session) : Prop where
  length : after.length = before.length
  keeps : ∀ (i : Nat) (new : Session), after[i]? = some new ->
    ∃ old, before[i]? = some old /\ Keeps old new

namespace Rewritten

variable {before after : List Session}

theorem forward (hrewritten : Rewritten before after) {i : Nat} {old : Session}
    (hold : before[i]? = some old) : ∃ new, after[i]? = some new /\ Keeps old new := by
  obtain ⟨hlt, -⟩ := List.getElem?_eq_some_iff.mp hold
  rw [← hrewritten.length] at hlt
  have hget := getElem?_eq_getElem hlt
  obtain ⟨row, hrow, hkeeps⟩ := hrewritten.keeps i _ hget
  rw [hold] at hrow
  cases hrow
  exact ⟨_, hget, hkeeps⟩

theorem of_mem (hrewritten : Rewritten before after) {new : Session} (hnew : new ∈ after) :
    ∃ old ∈ before, Keeps old new := by
  obtain ⟨i, hi⟩ := mem_iff_getElem?.mp hnew
  obtain ⟨old, hold, hkeeps⟩ := hrewritten.keeps i new hi
  exact ⟨old, mem_of_getElem? hold, hkeeps⟩

theorem mapIdx {change : Nat -> Session -> Session}
    (hkeeps : ∀ i session, Keeps session (change i session)) (sessions : List Session) :
    Rewritten sessions (sessions.mapIdx change) where
  length := length_mapIdx
  keeps i new hnew := by
    rw [getElem?_mapIdx] at hnew
    obtain ⟨old, hold, rfl⟩ := Option.map_eq_some_iff.mp hnew
    exact ⟨old, hold, hkeeps i old⟩

theorem modify {change : Session -> Session} (hkeeps : ∀ session, Keeps session (change session))
    (sessions : List Session) (place : Nat) :
    Rewritten sessions (sessions.modify place change) where
  length := length_modify _ _ _
  keeps i new hnew := by
    rw [getElem?_modify] at hnew
    obtain ⟨old, hold, rfl⟩ := Option.map_eq_some_iff.mp hnew
    refine ⟨old, hold, ?_⟩
    split
    · exact hkeeps old
    · exact Keeps.refl old

end Rewritten

theorem matches_congr (scope : Scope) {first second : Session}
    (hfamily : first.familyId = second.familyId) (huser : first.userId = second.userId) :
    scope.matches first = scope.matches second := by
  cases scope <;> simp [Scope.matches, hfamily, huser]

variable {before after : State}

theorem Inv.rewrite (hinv : Inv before) (hsessions : Rewritten before.sessions after.sessions)
    (hjobs : after.jobs = before.jobs) (hrequests : after.requests = before.requests) :
    Inv after where
  families session hsession := by
    obtain ⟨old, hold, hkeeps⟩ := hsessions.of_mem hsession
    rw [hkeeps.familyId, hsessions.length]
    exact hinv.families old hold
  owners first hfirst second hsecond hfamily := by
    obtain ⟨old, hold, hkeeps⟩ := hsessions.of_mem hfirst
    obtain ⟨other, hother, hkeeps'⟩ := hsessions.of_mem hsecond
    rw [hkeeps.userId, hkeeps'.userId]
    refine hinv.owners old hold other hother ?_
    rw [← hkeeps.familyId, ← hkeeps'.familyId, hfamily]
  retired session hsession old hcontinues := by
    obtain ⟨row, hrow, hkeeps⟩ := hsessions.of_mem hsession
    rw [hkeeps.continues] at hcontinues
    obtain ⟨previous, hprevious, hrevoked⟩ := hinv.retired row hrow old hcontinues
    obtain ⟨now, hnow, hkeeps'⟩ := hsessions.forward hprevious
    exact ⟨now, hnow, hkeeps'.revoked hrevoked⟩
  single i j first second old hi hj hfirst hsecond hstands hstands' := by
    obtain ⟨row, hrow, hkeeps⟩ := hsessions.keeps i first hi
    obtain ⟨other, hother, hkeeps'⟩ := hsessions.keeps j second hj
    rw [hkeeps.continues] at hfirst
    rw [hkeeps'.continues] at hsecond
    exact hinv.single i j row other old hrow hother hfirst hsecond (hkeeps.standing hstands)
      (hkeeps'.standing hstands')
  covered job hjob familyId hcovered := by
    rw [hjobs] at hjob
    obtain ⟨hlt, hmatches⟩ := hinv.covered job hjob familyId hcovered
    refine ⟨by rw [hsessions.length]; exact hlt, fun session hsession hfamily => ?_⟩
    obtain ⟨old, hold, hkeeps⟩ := hsessions.of_mem hsession
    rw [matches_congr job.scope hkeeps.familyId hkeeps.userId]
    exact hmatches old hold (hkeeps.familyId.symm.trans hfamily)
  committed k job hjob hcommitted session hsession hcovered hstands := by
    rw [hjobs] at hjob
    obtain ⟨old, hold, hkeeps⟩ := hsessions.of_mem hsession
    rw [hkeeps.familyId] at hcovered
    rw [hkeeps.excepted]
    exact hinv.committed k job hjob hcommitted old hold hcovered (hkeeps.standing hstands)
  requests request hrequest := by
    rw [hrequests] at hrequest
    obtain ⟨row, hrow, hfamily, huser⟩ := hinv.requests request hrequest
    obtain ⟨new, hnew, hkeeps⟩ := hsessions.forward hrow
    exact ⟨new, hnew, hkeeps.familyId.trans hfamily, hkeeps.userId.trans huser⟩
  marked request hrequest job change hpoint := by
    rw [hrequests] at hrequest
    obtain ⟨row, hrow, hrevoked⟩ := hinv.marked request hrequest job change hpoint
    obtain ⟨new, hnew, hkeeps⟩ := hsessions.forward hrow
    exact ⟨new, hnew, hkeeps.revoked hrevoked⟩

theorem keeps_markRotated (session : Session) : Keeps session (markRotated session) := by
  unfold markRotated
  split
  · exact ⟨rfl, rfl, rfl, rfl, fun _ => rfl⟩
  · exact Keeps.refl session

theorem markRotated_revoked (session : Session) : (markRotated session).revoked.isSome = true := by
  unfold markRotated
  split
  · rfl
  · rename_i hrevoked
    exact Option.isSome_iff_ne_none.mpr hrevoked

theorem keeps_revoke (job : Job) (place : Nat) (session : Session) :
    Keeps session (job.revoke place session) := by
  unfold Job.revoke
  split
  · exact ⟨rfl, rfl, rfl, rfl, fun _ => rfl⟩
  · exact Keeps.refl session

/-- What a new row needs: it starts a family or continues a revoked session of its own, which
has no other standing successor, and it is excepted from what covers its family. -/
structure Insertable (state : State) (session : Session) : Prop where
  family : session.familyId = state.sessions.length \/
    ∃ row ∈ state.sessions, row.familyId = session.familyId /\
      row.userId = session.userId
  retired : ∀ old, session.continues = some old ->
    ∃ row, state.sessions[old]? = some row /\ row.revoked.isSome = true
  single : ∀ old, session.continues = some old -> ∀ row ∈ state.sessions,
    row.continues = some old -> row.revoked.isSome = true
  excepted : ∀ (k : Nat) (job : Job), state.jobs[k]? = some job -> job.state = .committed ->
    session.familyId ∈ job.covered -> k ∈ session.excepted

variable {session : Session}

theorem Inv.append (hinv : Inv before) (hsession : Insertable before session)
    (hsessions : after.sessions = before.sessions ++ [session]) (hjobs : after.jobs = before.jobs)
    (hrequests : after.requests = before.requests) : Inv after := by
  have hmem : ∀ row ∈ after.sessions, row ∈ before.sessions \/ row = session := by
    intro row hrow
    rw [hsessions] at hrow
    rcases mem_append.mp hrow with hold | hnew
    · exact .inl hold
    · exact .inr (mem_singleton.mp hnew)
  have hlength : after.sessions.length = before.sessions.length + 1 := by
    rw [hsessions, length_append]
    rfl
  have hkept : ∀ (i : Nat) row, before.sessions[i]? = some row ->
      after.sessions[i]? = some row := by
    intro i row hrow
    rw [hsessions, List.getElem?_append_left (List.getElem?_eq_some_iff.mp hrow).1]
    exact hrow
  have hplace : ∀ (i : Nat) row, after.sessions[i]? = some row ->
      before.sessions[i]? = some row \/ (i = before.sessions.length /\ row = session) := by
    intro i row hrow
    rw [hsessions, getElem?_append] at hrow
    split at hrow
    · exact .inl hrow
    · rename_i hge
      rw [getElem?_singleton] at hrow
      split at hrow
      · exact .inr ⟨by omega, (Option.some.inj hrow).symm⟩
      · cases hrow
  have howner : ∀ row ∈ before.sessions, row.familyId = session.familyId ->
      row.userId = session.userId := by
    intro row hrow hfamily
    rcases hsession.family with hfresh | ⟨other, hother, hsame, huser⟩
    · have hlt := hinv.families row hrow
      omega
    · exact (hinv.owners row hrow other hother (hfamily.trans hsame.symm)).trans huser
  constructor
  · intro row hrow
    rw [hlength]
    rcases hmem row hrow with hold | rfl
    · exact Nat.lt_succ_of_lt (hinv.families row hold)
    · rcases hsession.family with hfresh | ⟨other, hother, hsame, -⟩
      · rw [hfresh]
        exact Nat.lt_succ_self _
      · rw [← hsame]
        exact Nat.lt_succ_of_lt (hinv.families other hother)
  · intro first hfirst second hsecond hfamily
    rcases hmem first hfirst with hold | rfl
    · rcases hmem second hsecond with hold' | rfl
      · exact hinv.owners first hold second hold' hfamily
      · exact howner first hold hfamily
    · rcases hmem second hsecond with hold' | rfl
      · exact (howner second hold' hfamily.symm).symm
      · rfl
  · intro row hrow old hcontinues
    have hbefore : ∃ previous, before.sessions[old]? = some previous /\
        previous.revoked.isSome = true := by
      rcases hmem row hrow with hold | rfl
      · exact hinv.retired row hold old hcontinues
      · exact hsession.retired old hcontinues
    obtain ⟨previous, hprevious, hrevoked⟩ := hbefore
    exact ⟨previous, hkept old previous hprevious, hrevoked⟩
  · intro i j first second old hi hj hfirst hsecond hstands hstands'
    rcases hplace i first hi with hold | ⟨rfl, rfl⟩
    · rcases hplace j second hj with hold' | ⟨rfl, rfl⟩
      · exact hinv.single i j first second old hold hold' hfirst hsecond hstands hstands'
      · have hrevoked := hsession.single old hsecond first (mem_of_getElem? hold) hfirst
        rw [hstands] at hrevoked
        cases hrevoked
    · rcases hplace j second hj with hold' | ⟨rfl, -⟩
      · have hrevoked := hsession.single old hfirst second (mem_of_getElem? hold') hsecond
        rw [hstands'] at hrevoked
        cases hrevoked
      · rfl
  · intro job hjob familyId hcovered
    rw [hjobs] at hjob
    obtain ⟨hlt, hmatches⟩ := hinv.covered job hjob familyId hcovered
    refine ⟨by rw [hlength]; exact Nat.lt_succ_of_lt hlt, fun row hrow hfamily => ?_⟩
    rcases hmem row hrow with hold | rfl
    · exact hmatches row hold hfamily
    · rcases hsession.family with hfresh | ⟨other, hother, hsame, huser⟩
      · omega
      · rw [← matches_congr job.scope hsame huser]
        exact hmatches other hother (hsame.trans hfamily)
  · intro k job hjob hcommitted row hrow hcovered hstands
    rw [hjobs] at hjob
    rcases hmem row hrow with hold | rfl
    · exact hinv.committed k job hjob hcommitted row hold hcovered hstands
    · exact hsession.excepted k job hjob hcommitted hcovered
  · intro request hrequest
    rw [hrequests] at hrequest
    obtain ⟨row, hrow, hfacts⟩ := hinv.requests request hrequest
    exact ⟨row, hkept _ row hrow, hfacts⟩
  · intro request hrequest job change hpoint
    rw [hrequests] at hrequest
    obtain ⟨row, hrow, hrevoked⟩ := hinv.marked request hrequest job change hpoint
    exact ⟨row, hkept _ row hrow, hrevoked⟩

theorem mem_modify {made : List Request} {place : Nat} {change : Request -> Request}
    {request : Request} (hrequest : request ∈ made.modify place change) :
    request ∈ made \/ ∃ old, made[place]? = some old /\ request = change old := by
  obtain ⟨i, hi⟩ := mem_iff_getElem?.mp hrequest
  rw [getElem?_modify] at hi
  obtain ⟨old, hold, rfl⟩ := Option.map_eq_some_iff.mp hi
  split
  · rename_i hplace
    exact .inr ⟨old, hplace ▸ hold, rfl⟩
  · exact .inl (mem_of_getElem? hold)

variable {state : State}

theorem Inv.setPoint (hinv : Inv state) (place : Nat) (point : Point)
    (hpoint : ∀ job change, point = .inserting job change -> ∀ request,
      state.requests[place]? = some request ->
        ∃ row, state.sessions[request.principal.sessionId]? = some row /\
          row.revoked.isSome = true) : Inv (state.setPoint place point) where
  families := hinv.families
  owners := hinv.owners
  retired := hinv.retired
  single := hinv.single
  covered := hinv.covered
  committed := hinv.committed
  requests request hrequest := by
    rcases mem_modify hrequest with hold | ⟨old, hold, rfl⟩
    · exact hinv.requests request hold
    · exact hinv.requests old (mem_of_getElem? hold)
  marked request hrequest job change hinserting := by
    rcases mem_modify hrequest with hold | ⟨old, hold, rfl⟩
    · exact hinv.marked request hold job change hinserting
    · exact hpoint job change hinserting old hold

theorem Inv.addRequest (hinv : Inv state) {session : Nat} {row : Session}
    (hrow : state.sessions[session]? = some row) :
    Inv { state with
      requests := state.requests ++
        [{ principal :=
             { sessionId := session, familyId := row.familyId, userId := row.userId
               absoluteExpiresAt := row.absoluteExpiresAt }
           point := .resolved }] } where
  families := hinv.families
  owners := hinv.owners
  retired := hinv.retired
  single := hinv.single
  covered := hinv.covered
  committed := hinv.committed
  requests request hrequest := by
    rcases mem_append.mp hrequest with hold | hnew
    · exact hinv.requests request hold
    · obtain rfl := mem_singleton.mp hnew
      exact ⟨row, hrow, rfl, rfl⟩
  marked request hrequest job change hpoint := by
    rcases mem_append.mp hrequest with hold | hnew
    · exact hinv.marked request hold job change hpoint
    · obtain rfl := mem_singleton.mp hnew
      cases hpoint

theorem covered_jobFor (hinv : Inv state) {scope : Scope} {familyId : Nat}
    (hcovered : familyId ∈ (state.sessions.filter scope.matches).map Session.familyId) :
    familyId < state.sessions.length /\
      ∀ session ∈ state.sessions, session.familyId = familyId ->
        scope.matches session = true := by
  obtain ⟨row, hrow, rfl⟩ := mem_map.mp hcovered
  obtain ⟨hmem, hmatches⟩ := mem_filter.mp hrow
  refine ⟨hinv.families row hmem, fun session hsession hfamily => ?_⟩
  rw [matches_congr scope hfamily (hinv.owners session hsession row hmem hfamily)]
  exact hmatches

theorem Inv.addJob (hinv : Inv state) (scope : Scope) (reason : RevokeReason)
    (change : Option (Nat × AccountChange)) (request : Option Nat) :
    Inv { state with jobs := state.jobs ++ [state.jobFor scope reason change request] } where
  families := hinv.families
  owners := hinv.owners
  retired := hinv.retired
  single := hinv.single
  covered job hjob familyId hcovered := by
    rcases mem_append.mp hjob with hold | hnew
    · exact hinv.covered job hold familyId hcovered
    · obtain rfl := mem_singleton.mp hnew
      exact covered_jobFor hinv hcovered
  committed k job hjob hcommitted session hsession hcovered hstands := by
    dsimp only at hjob
    rw [getElem?_append] at hjob
    split at hjob
    · exact hinv.committed k job hjob hcommitted session hsession hcovered hstands
    · rw [getElem?_singleton] at hjob
      split at hjob
      · cases hjob
        cases hcommitted
      · cases hjob
  requests := hinv.requests
  marked := hinv.marked

theorem Inv.endJob (hinv : Inv state) {job : Nat} {made : Job}
    (hmade : state.jobs[job]? = some made) (ended : JobState)
    (hcommitted : ended = .committed -> ∀ session ∈ state.sessions,
      session.familyId ∈ made.covered -> session.revoked.isSome = true) :
    Inv { state with jobs := state.jobs.set job { made with state := ended } } where
  families := hinv.families
  owners := hinv.owners
  retired := hinv.retired
  single := hinv.single
  covered other hother familyId hcovered := by
    rcases mem_or_eq_of_mem_set hother with hold | rfl
    · exact hinv.covered other hold familyId hcovered
    · exact hinv.covered made (mem_of_getElem? hmade) familyId hcovered
  committed k other hother hstate session hsession hcovered hstands := by
    dsimp only at hother
    rw [getElem?_set] at hother
    split at hother
    · split at hother
      · cases hother
        have hrevoked := hcommitted hstate session hsession hcovered
        rw [hstands] at hrevoked
        cases hrevoked
      · cases hother
    · exact hinv.committed k other hother hstate session hsession hcovered hstands
  requests := hinv.requests
  marked := hinv.marked

theorem Inv.setActive (hinv : Inv state) (active : Nat -> Bool) :
    Inv { state with active := active } :=
  ⟨hinv.families, hinv.owners, hinv.retired, hinv.single, hinv.covered, hinv.committed,
    hinv.requests, hinv.marked⟩

theorem Inv.login (hinv : Inv state) (userId now : Nat) :
    Inv { state with
      sessions := state.sessions ++ [newSession state.sessions.length userId now] } := by
  refine hinv.append ⟨.inl rfl, fun old hold => ?_, fun old hold => ?_, ?_⟩ rfl rfl rfl
  · cases hold
  · cases hold
  · intro k job hjob _ hcovered
    have hlt := (hinv.covered job (mem_of_getElem? hjob) _ hcovered).1
    exact absurd hlt (Nat.lt_irrefl _)

theorem Inv.rotate (hinv : Inv state) {session : Nat} {row : Session}
    (hrow : state.sessions[session]? = some row) (hstands : row.revoked = none) (now : Nat) :
    Inv { state with
      sessions := state.sessions.modify session markRotated ++
        [rotatedSession session row.familyId row.userId row.absoluteExpiresAt now
          row.excepted] } := by
  have hrewritten := Rewritten.modify keeps_markRotated state.sessions session
  have hmarked : Inv { state with sessions := state.sessions.modify session markRotated } :=
    hinv.rewrite hrewritten rfl rfl
  have hold : (state.sessions.modify session markRotated)[session]? = some (markRotated row) := by
    rw [getElem?_modify, hrow]
    simp
  refine hmarked.append ⟨.inr ⟨markRotated row, mem_of_getElem? hold, ?_, ?_⟩, ?_, ?_, ?_⟩
    rfl rfl rfl
  · exact (keeps_markRotated row).familyId
  · exact (keeps_markRotated row).userId
  · intro old hcontinues
    cases hcontinues
    exact ⟨markRotated row, hold, markRotated_revoked row⟩
  · intro old hcontinues other hother hsame
    cases hcontinues
    -- a session with a successor is revoked, and this one stood
    obtain ⟨before, hbefore, hkeeps⟩ := hrewritten.of_mem hother
    rw [hkeeps.continues] at hsame
    obtain ⟨retired, hretired, hrevoked⟩ := hinv.retired before hbefore _ hsame
    rw [hrow] at hretired
    cases hretired
    rw [hstands] at hrevoked
    cases hrevoked
  · intro k job hjob hcommitted hcovered
    exact hinv.committed k job hjob hcommitted row (mem_of_getElem? hrow) hcovered hstands

theorem revoke_isSome {job : Job} {place : Nat} (hplace : place < job.visible)
    (hmatches : job.scope.matches session = true) :
    (job.revoke place session).revoked.isSome = true := by
  unfold Job.revoke
  split
  · rfl
  · rename_i hnot
    cases hrevoked : session.revoked with
    | none => exact absurd ⟨hplace, hmatches, hrevoked⟩ hnot
    | some reason => rfl

theorem Inv.finish (hinv : Inv state) {job : Nat} {made : Job}
    (hmade : state.jobs[job]? = some made) (hguard : CommitGuarded state made) :
    Inv (state.finish job made) := by
  have hrewritten := Rewritten.mapIdx (keeps_revoke made) state.sessions
  have hrevoked : Inv { state with sessions := state.sessions.mapIdx made.revoke } :=
    hinv.rewrite hrewritten rfl rfl
  refine hrevoked.endJob hmade .committed fun _ session hsession hcovered => ?_
  obtain ⟨i, hi⟩ := mem_iff_getElem?.mp hsession
  dsimp only at hi
  rw [getElem?_mapIdx] at hi
  obtain ⟨old, hold, rfl⟩ := Option.map_eq_some_iff.mp hi
  rw [(keeps_revoke made i old).familyId] at hcovered
  have hmem : old ∈ state.sessions := mem_of_getElem? hold
  cases hstands : old.revoked with
  | some reason => exact (keeps_revoke made i old).revoked (by rw [hstands]; rfl)
  | none =>
    have hplace := hguard (old, i) (mk_mem_zipIdx_iff_getElem?.mpr hold) hstands hcovered
    have hmatches := (hinv.covered made (mem_of_getElem? hmade) _ hcovered).2 old hmem rfl
    exact revoke_isSome hplace hmatches

theorem Inv.applyStatus (hinv : Inv state) (made : Job) : Inv (state.applyStatus made) := by
  unfold State.applyStatus
  split
  · split
    · exact hinv.setActive _
    · exact hinv
  · exact hinv

variable {principal : Principal}

theorem pointAfter_ne_inserting {job userId other : Nat} {change given : AccountChange} :
    pointAfter principal job userId change ≠ .inserting other given := by
  unfold pointAfter
  split
  · intro heq
    cases heq
  · intro heq
    cases heq

theorem Inv.wake (hinv : Inv state) (job : Nat) (made : Job) : Inv (state.wake job made) := by
  unfold State.wake
  split
  · split
    · exact hinv.setPoint _ _ fun _ _ hpoint => absurd hpoint pointAfter_ne_inserting
    · exact hinv
  · exact hinv

theorem Inv.mark (hinv : Inv state) {request job : Nat} {change : AccountChange}
    (hrequest : state.requests[request]? = some ⟨principal, .marking job change⟩) :
    Inv ({ state with sessions := state.sessions.modify principal.sessionId markRotated }.setPoint
      request (.inserting job change)) := by
  have hmarked : Inv { state with
      sessions := state.sessions.modify principal.sessionId markRotated } :=
    hinv.rewrite (Rewritten.modify keeps_markRotated state.sessions principal.sessionId) rfl rfl
  refine hmarked.setPoint _ _ fun _ _ _ waiting hwaiting => ?_
  dsimp only at hwaiting
  rw [hrequest] at hwaiting
  cases hwaiting
  obtain ⟨row, hrow, -⟩ := hinv.requests _ (mem_of_getElem? hrequest)
  refine ⟨markRotated row, ?_, markRotated_revoked row⟩
  dsimp only at hrow ⊢
  rw [getElem?_modify, hrow]
  simp

theorem Inv.insert (hinv : Inv state) {request job now : Nat} {change : AccountChange}
    (hrequest : state.requests[request]? = some ⟨principal, .inserting job change⟩)
    (hguard : InsertGuarded state ⟨principal, .inserting job change⟩) :
    Inv ({ state with
      sessions := state.sessions ++ [state.ownRotation principal job change now] }.setPoint request
        .closed) := by
  obtain ⟨hroles, hcovered, hsingle⟩ := hguard
  obtain ⟨row, hrow, hfamily, huser⟩ := hinv.requests _ (mem_of_getElem? hrequest)
  obtain ⟨marked, hmarked, hrevoked⟩ :=
    hinv.marked _ (mem_of_getElem? hrequest) job change rfl
  have hinsertable : Insertable state (state.ownRotation principal job change now) := by
    refine ⟨.inr ⟨row, mem_of_getElem? hrow, hfamily, huser⟩, ?_, ?_, ?_⟩
    · intro old hcontinues
      cases hcontinues
      exact ⟨marked, hmarked, hrevoked⟩
    · intro old hcontinues
      cases hcontinues
      exact hsingle
    · intro k made hmade hstate hcovers
      refine mem_append.mpr ?_
      rw [if_pos hroles, mem_singleton]
      exact hcovered (made, k) (mk_mem_zipIdx_iff_getElem?.mpr hmade) hstate hcovers
  have hinserted : Inv { state with
      sessions := state.sessions ++ [state.ownRotation principal job change now] } :=
    hinv.append hinsertable rfl rfl rfl
  exact hinserted.setPoint _ _ fun _ _ hpoint => absurd hpoint (by intro heq; cases heq)

theorem Inv.change (hinv : Inv before) {request : Option Nat} {userId : Nat}
    {change : AccountChange} (hstep : step before (.change request userId change) = some after) :
    Inv after := by
  simp only [step] at hstep
  split at hstep
  · cases hstep
  · split at hstep
    · split at hstep
      · cases hstep
        exact hinv.setActive _
      · cases hstep
        exact hinv
    · split at hstep
      · cases hstep
        exact hinv.addJob _ _ _ _
      · split at hstep
        · cases hstep
          exact (hinv.addJob _ _ _ _).setPoint _ _
            fun _ _ hpoint => absurd hpoint (by intro heq; cases heq)
        · cases hstep

theorem inv_step {label : Label} (hinv : Inv before) (hstep : step before label = some after)
    (hguard : Guarded before label) : Inv after := by
  cases label with
  | login userId now =>
    cases hstep
    exact hinv.login userId now
  | resolve session now =>
    simp only [step] at hstep
    split at hstep
    · cases hstep
    · rename_i row hrow
      split at hstep
      · cases hstep
        exact hinv.addRequest hrow
      · cases hstep
  | touch session now =>
    cases hstep
    refine hinv.rewrite (Rewritten.modify (fun row => ?_) _ _) rfl rfl
    split
    · exact ⟨rfl, rfl, rfl, rfl, id⟩
    · exact Keeps.refl row
  | rotate session now =>
    simp only [step] at hstep
    split at hstep
    · cases hstep
    · rename_i row hrow
      split at hstep
      · rename_i hstands
        cases hstep
        exact hinv.rotate hrow hstands now
      · cases hstep
  | revoke scope reason =>
    cases hstep
    exact hinv.addJob scope reason none none
  | change request userId change => exact hinv.change hstep
  | commit job =>
    simp only [step] at hstep
    split at hstep
    · cases hstep
    · rename_i made hmade
      split at hstep
      · cases hstep
        exact ((hinv.finish hmade (hguard made hmade)).applyStatus made).wake job made
      · cases hstep
  | abort job =>
    simp only [step] at hstep
    split at hstep
    · cases hstep
    · rename_i made hmade
      split at hstep
      · cases hstep
        exact hinv.endJob hmade .aborted nofun
      · cases hstep
  | mark request =>
    simp only [step] at hstep
    split at hstep
    · rename_i principal job change hrequest
      cases hstep
      exact hinv.mark hrequest
    · cases hstep
  | insert request now =>
    simp only [step] at hstep
    split at hstep
    · rename_i principal job change hrequest
      cases hstep
      exact hinv.insert hrequest (hguard _ hrequest)
    · cases hstep

theorem inv_of_started (hstarted : Started state) : Inv state := by
  constructor
  · intro session hsession
    rw [hstarted.sessions] at hsession
    cases hsession
  · intro first hfirst
    rw [hstarted.sessions] at hfirst
    cases hfirst
  · intro session hsession
    rw [hstarted.sessions] at hsession
    cases hsession
  · intro i j first second old hi
    rw [hstarted.sessions] at hi
    cases hi
  · intro job hjob
    rw [hstarted.jobs] at hjob
    cases hjob
  · intro k job hjob
    rw [hstarted.jobs] at hjob
    cases hjob
  · intro request hrequest
    rw [hstarted.requests] at hrequest
    cases hrequest
  · intro request hrequest
    rw [hstarted.requests] at hrequest
    cases hrequest

theorem standing_of_active {now : Nat} (hactive : sessionStatus session now = .active) :
    session.revoked = none := by
  unfold sessionStatus at hactive
  cases hrevoked : session.revoked with
  | none => rfl
  | some reason =>
    rw [hrevoked] at hactive
    cases hactive

theorem Inv.safe (hinv : Inv state) : Safe state where
  revoked k job hjob hcommitted session hsession hcovered _ hactive :=
    hinv.committed k job hjob hcommitted session hsession hcovered (standing_of_active hactive)
  single i j first second old hi hj hfirst hsecond _ hactive hactive' :=
    hinv.single i j first second old hi hj hfirst hsecond (standing_of_active hactive)
      (standing_of_active hactive')

/-- In a run of guarded steps a revoked family stays revoked, but for the rotations of role
changes, and a session has at most one active successor. -/
theorem revoked_sessions_stay_revoked {state : State}
    (hreach : (adminSessions.restrict Guarded).Reachable state) : Safe state := by
  have hstart : ∀ origin, (adminSessions.restrict Guarded).start origin -> Inv origin :=
    fun _ horigin => inv_of_started horigin
  have hkeep : ∀ before label after, (adminSessions.restrict Guarded).Reachable before ->
      Inv before -> (adminSessions.restrict Guarded).step before label after -> Inv after :=
    fun _ _ _ _ hinv hstep => inv_step hinv hstep.1 hstep.2
  exact (hreach.invariant hstart hkeep).safe

def noSessions : State where
  sessions := []
  active := fun _ => true
  requests := []
  jobs := []

theorem noSessions_started : Started noSessions := ⟨rfl, rfl, rfl⟩

def ownRoleChange : List Label :=
  [ .login 7 0, .resolve 0 1000, .change (some 0) 7 .setRoles, .commit 0, .mark 0,
    .insert 0 2000 ]

theorem own_role_change_is_safe : ∃ state,
    (adminSessions.restrict Guarded).Reachable state /\
      state.sessions.map Session.revoked = [some .privilegeChanged, none] /\ Safe state := by
  have hrun : (System.follow (fun before label => if Guarded before label then step before label
      else none) noSessions ownRoleChange).map
        (fun state => state.sessions.map Session.revoked) =
          some [some .privilegeChanged, none] := by decide +kernel
  obtain ⟨state, hfollow, hsessions⟩ := Option.map_eq_some_iff.mp hrun
  have hreach : (adminSessions.restrict Guarded).Reachable state :=
    ⟨noSessions, ownRoleChange, noSessions_started,
      .of_follow_restrict (fun _ _ _ hstep => hstep) hfollow⟩
  exact ⟨state, hreach, hsessions, revoked_sessions_stay_revoked hreach⟩

def revokedBeforeRotation : List Label :=
  [ .login 7 0, .resolve 0 1000, .change (some 0) 7 .setRoles, .commit 0,
    .revoke (.account 7) .adminRevoked, .commit 1, .mark 0, .insert 0 2000 ]

theorem revoked_session_continues : ∃ state, adminSessions.Reachable state /\ ¬ Safe state := by
  have hrun : (System.follow step noSessions revokedBeforeRotation).map
      (fun state => (state.sessions[1]?, state.jobs[1]?.map fun job => (job.state, job.covered))) =
        some (some (rotatedSession 0 0 7 43200000 2000 [0]), some (.committed, [0])) := by
    decide +kernel
  obtain ⟨state, hfollow, hdata⟩ := Option.map_eq_some_iff.mp hrun
  obtain ⟨hsession, hjob⟩ := Prod.mk.inj hdata
  refine ⟨state, ⟨noSessions, revokedBeforeRotation, noSessions_started,
    .of_follow (fun _ _ _ hstep => hstep) hfollow⟩, fun hsafe => ?_⟩
  obtain ⟨job, hget, hstate⟩ := Option.map_eq_some_iff.mp hjob
  obtain ⟨hcommitted, hcovered⟩ := Prod.mk.inj hstate
  have hexcepted := hsafe.revoked 1 job hget hcommitted _ (mem_of_getElem? hsession)
    (by rw [hcovered]; exact mem_cons_self) 3000 (by decide)
  exact absurd hexcepted (by decide)

end AnchorMind.Admin.AdminSessions
