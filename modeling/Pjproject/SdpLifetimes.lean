import Pjproject.SdpPools

/-! Whether the SDPs that the negotiator points to are still allocated. -/
namespace Pjproject.Sdp

theorem memHeld {neg : Neg} {t : Tag} :
    t ∈ neg.held ↔ neg.initialSdp = some t ∨ neg.initialSdpTmp = some t ∨ neg.activeLocalSdp = some t ∨
      neg.activeRemoteSdp = some t ∨ neg.negLocalSdp = some t ∨ neg.negRemoteSdp = some t := by
  simp only [Neg.held,List.mem_append,Option.mem_toList,or_assoc]

/- A call adds no SDP but those it allocates. -/
def Adds (pool : Tag) (call : Neg → Except NegError Neg) : Prop :=
  ∀ neg next, call neg = .ok next → ∀ t ∈ next.held, t ∈ neg.held ∨ t = pool

theorem modifyLocalOfferAdds (pool : Tag) : Adds pool (fun neg => neg.modifyLocalOffer2 pool) := by
  intro neg next result t member
  simp only [Neg.modifyLocalOffer2] at result
  split at result <;> try contradiction
  split at result <;> try contradiction
  cases result
  simp only [memHeld,Option.some.injEq] at member ⊢
  grind

theorem sendLocalOfferAdds (pool : Tag) : Adds pool (fun neg => neg.sendLocalOffer pool) := by
  intro neg next result t member
  simp only [Neg.sendLocalOffer] at result
  split at result
  · split at result <;> try contradiction
    split at result <;> cases result <;> simp only [memHeld,Option.some.injEq] at member ⊢ <;> grind
  · split at result <;> try contradiction
    cases result
    exact .inl member

theorem setRemoteAnswerAdds (pool : Tag) : Adds pool (fun neg => neg.setRemoteAnswer pool) := by
  intro neg next result t member
  simp only [Neg.setRemoteAnswer] at result
  split at result <;> try contradiction
  cases result
  simp only [memHeld,Option.some.injEq] at member ⊢
  grind

theorem setRemoteOfferAdds (pool : Tag) : Adds pool (fun neg => neg.setRemoteOffer pool) := by
  intro neg next result t member
  simp only [Neg.setRemoteOffer] at result
  split at result <;> try contradiction
  cases result
  simp only [memHeld,Option.some.injEq] at member ⊢
  grind

theorem setLocalAnswerAdds (pool : Tag) : Adds pool (fun neg => neg.setLocalAnswer pool) := by
  intro neg next result t member
  simp only [Neg.setLocalAnswer] at result
  split at result <;> try contradiction
  split at result <;> cases result <;> simp only [memHeld,Option.some.injEq] at member ⊢ <;> grind

theorem cancelOfferAdds (pool : Tag) : Adds pool Neg.cancelOffer := by
  intro neg next result t member
  simp only [Neg.cancelOffer] at result
  split at result <;> try contradiction
  cases result
  simp only [memHeld] at member ⊢
  grind

theorem negotiateAdds (pool : Tag) (ok : Bool) : Adds pool (fun neg => neg.negotiate pool ok) := by
  intro neg next result t member
  simp only [Neg.negotiate] at result
  split at result <;> try contradiction
  split at result <;> try contradiction
  cases result
  simp only [memHeld] at member ⊢
  grind

/- Where the SDPs of a negotiator are. `keep` are the places that outlast the next reset of pool_prov, `fresh` those that it
becomes safe to keep when the negotiation succeeds. -/
def Within (places : Tag → Prop) (sdp : Option Tag) : Prop := ∀ t, sdp = some t → places t

theorem withinNone (places : Tag → Prop) : Within places none := fun _ => nofun

theorem withinSome {places : Tag → Prop} {t : Tag} (place : places t) : Within places (some t) := by
  rintro _ ⟨⟩
  exact place

theorem Within.mono {places more : Tag → Prop} {sdp : Option Tag} (within : Within places sdp)
    (wider : ∀ t, places t → more t) : Within more sdp := fun t same => wider t (within t same)

structure Shape (keep fresh : Tag → Prop) (neg : Neg) : Prop where
  activeLocal : Within keep neg.activeLocalSdp
  activeRemote : Within keep neg.activeRemoteSdp
  done : neg.state = .done →
    Within keep neg.initialSdp ∧ neg.initialSdpTmp = none ∧ neg.negLocalSdp = none ∧ neg.negRemoteSdp = none
  localOffer : neg.state = .localOffer → Within keep neg.initialSdpTmp ∧ Within fresh neg.initialSdp ∧
    Within fresh neg.negLocalSdp ∧ neg.negRemoteSdp = none
  remoteOffer : neg.state = .remoteOffer →
    Within keep neg.initialSdp ∧ neg.initialSdpTmp = none ∧ Within fresh neg.negRemoteSdp ∧
      neg.negRemoteSdp ≠ none ∧ neg.answers = 0
  waitNego : neg.state = .waitNego →
    Within fresh neg.initialSdp ∧ Within fresh neg.negRemoteSdp ∧ neg.negRemoteSdp ≠ none ∧
      (neg.answers = 0 → Within keep neg.initialSdp) ∧ (neg.answers ≤ 1 → Within keep neg.initialSdpTmp)

theorem Shape.mono {keep fresh keep' fresh' : Tag → Prop} {neg : Neg} (shape : Shape keep fresh neg)
    (kept : ∀ t, keep t → keep' t) (freshened : ∀ t, fresh t → fresh' t) : Shape keep' fresh' neg where
  activeLocal := shape.activeLocal.mono kept
  activeRemote := shape.activeRemote.mono kept
  done state := ⟨(shape.done state).1.mono kept,(shape.done state).2⟩
  localOffer state := by
    obtain ⟨tmp,initial,negLocal,remote⟩ := shape.localOffer state
    exact ⟨tmp.mono kept,initial.mono freshened,negLocal.mono freshened,remote⟩
  remoteOffer state := by
    obtain ⟨initial,tmp,remote,answers⟩ := shape.remoteOffer state
    exact ⟨initial.mono kept,tmp,remote.mono freshened,answers⟩
  waitNego state := by
    obtain ⟨initial,remote,given,none,one⟩ := shape.waitNego state
    exact ⟨initial.mono freshened,remote.mono freshened,given,fun count => (none count).mono kept,
      fun count => (one count).mono kept⟩

theorem Shape.places {keep fresh : Tag → Prop} {neg : Neg} (shape : Shape keep fresh neg)
    (state : neg.state = .done ∨ neg.state = .localOffer) : ∀ t ∈ neg.held, keep t ∨ fresh t := by
  intro t member
  have active := shape.activeLocal t
  have activeRemote := shape.activeRemote t
  rw [memHeld] at member
  rcases state with done | offer
  · obtain ⟨initial,tmp,negLocal,remote⟩ := shape.done done
    have initial := initial t
    grind
  · obtain ⟨tmp,initial,negLocal,remote⟩ := shape.localOffer offer
    have tmp := tmp t
    have initial := initial t
    have negLocal := negLocal t
    grind

section Shapes
variable {keep fresh : Tag → Prop} {neg next : Neg} {pool : Tag}

theorem Shape.modifyLocalOffer2 (shape : Shape keep fresh neg) (place : fresh pool)
    (result : neg.modifyLocalOffer2 pool = .ok next) : Shape keep fresh next ∧ next.state = .localOffer := by
  unfold Neg.modifyLocalOffer2 at result
  split at result <;> try contradiction
  next state =>
  split at result <;> try contradiction
  cases result
  obtain ⟨initial,_,_,remote⟩ := shape.done (not_not.mp state)
  exact ⟨⟨shape.activeLocal,shape.activeRemote,nofun,
    fun _ => ⟨initial,withinSome place,withinSome place,remote⟩,nofun,nofun⟩,rfl⟩

theorem Shape.sendLocalOffer (shape : Shape keep fresh neg) (place : fresh pool)
    (result : neg.sendLocalOffer pool = .ok next) : Shape keep fresh next := by
  unfold Neg.sendLocalOffer at result
  split at result
  · next state =>
    obtain ⟨initial,tmp,_,remote⟩ := shape.done state
    split at result <;> try contradiction
    split at result <;> cases result
    · next noInitial =>
      refine ⟨shape.activeLocal,shape.activeRemote,nofun,fun _ => ⟨?_,?_,withinSome place,remote⟩,nofun,nofun⟩
      · rw [tmp]; exact withinNone keep
      · rw [noInitial]; exact withinNone fresh
    · exact ⟨shape.activeLocal,shape.activeRemote,nofun,
        fun _ => ⟨initial,withinSome place,withinSome place,remote⟩,nofun,nofun⟩
  · split at result <;> try contradiction
    cases result
    exact shape

theorem Shape.setRemoteOffer (shape : Shape keep fresh neg) (place : fresh pool)
    (result : neg.setRemoteOffer pool = .ok next) : Shape keep fresh next := by
  unfold Neg.setRemoteOffer at result
  split at result <;> try contradiction
  next state =>
  cases result
  have ready := shape.done (not_not.mp state)
  exact ⟨shape.activeLocal,shape.activeRemote,nofun,nofun,fun _ => ⟨ready.1,ready.2.1,withinSome place,nofun,rfl⟩,
    nofun⟩

theorem Shape.setLocalAnswer (shape : Shape keep fresh neg) (place : fresh pool)
    (result : neg.setLocalAnswer pool = .ok next) : Shape keep fresh next := by
  have before : (neg.answers = 0 → Within keep neg.initialSdp ∧ Within keep neg.initialSdpTmp) ∧
      Within fresh neg.negRemoteSdp ∧ neg.negRemoteSdp ≠ none := by
    unfold Neg.setLocalAnswer at result
    split at result <;> try contradiction
    next allowed =>
    rcases not_and_or.mp allowed with remote | waiting
    · obtain ⟨initial,tmp,place,given,_⟩ := shape.remoteOffer (not_not.mp remote)
      exact ⟨fun _ => ⟨initial,tmp ▸ withinNone keep⟩,place,given⟩
    · obtain ⟨_,place,given,initial,tmp⟩ := shape.waitNego (not_not.mp waiting)
      exact ⟨fun none => ⟨initial none,tmp (by omega)⟩,place,given⟩
  unfold Neg.setLocalAnswer at result
  split at result <;> try contradiction
  split at result <;> cases result
  · refine ⟨shape.activeLocal,shape.activeRemote,nofun,nofun,nofun,fun _ =>
      ⟨withinSome place,before.2.1,before.2.2,nofun,fun first => (before.1 ?_).2⟩⟩
    change neg.answers + 1 ≤ 1 at first
    omega
  · refine ⟨shape.activeLocal,shape.activeRemote,nofun,nofun,nofun,fun _ =>
      ⟨withinSome place,before.2.1,before.2.2,nofun,fun first => (before.1 ?_).1⟩⟩
    change neg.answers + 1 ≤ 1 at first
    omega

theorem Shape.cancelOffer (shape : Shape keep fresh neg) (result : neg.cancelOffer = .ok next) :
    Shape keep fresh next ∧ next.state = .done := by
  unfold Neg.cancelOffer at result
  split at result <;> try contradiction
  next allowed =>
  cases result
  refine ⟨⟨shape.activeLocal,shape.activeRemote,fun _ => ⟨?_,rfl,rfl,rfl⟩,nofun,nofun,nofun⟩,rfl⟩
  by_cases offered : neg.state = .localOffer
  · simpa only [offered,if_true] using (shape.localOffer offered).1
  · have remote : neg.state = .remoteOffer := by
      rcases not_and_or.mp allowed with h | h
      · exact absurd (not_not.mp h) offered
      · exact not_not.mp h
    simpa only [offered,if_false] using (shape.remoteOffer remote).1

end Shapes

/- A negotiation leaves nothing in pool_prov that its outcome would free. When it fails this rests on a single answer. -/
theorem negotiateShape {settled fresh : Tag → Prop} {neg next : Neg} {pool : Tag} {ok : Bool} (place : fresh pool)
    (activeLocal : Within settled neg.activeLocalSdp) (activeRemote : Within settled neg.activeRemoteSdp)
    (initial : Within fresh neg.initialSdp) (remote : Within fresh neg.negRemoteSdp)
    (tmp : ok = false → Within settled neg.initialSdpTmp) (result : neg.negotiate pool ok = .ok next) :
    next.state = .done ∧ Shape (if ok then fresh else settled) (fun t => t = dialogTag) next := by
  unfold Neg.negotiate at result
  split at result <;> try contradiction
  split at result <;> try contradiction
  cases result
  refine ⟨rfl,?_⟩
  cases ok with
  | true => exact ⟨withinSome place,remote,fun _ => ⟨initial,rfl,rfl,rfl⟩,nofun,nofun,nofun⟩
  | false => exact ⟨activeLocal,activeRemote,fun _ => ⟨tmp rfl,rfl,rfl,rfl⟩,nofun,nofun,nofun⟩

/- The pools that the next reset of pool_prov spares, and those that it spares after a swap. -/
def Media.Settled (m : Media) (t : Tag) : Prop := t = dialogTag ∨ t = m.activeTag
def Media.Fresh (m : Media) (t : Tag) : Prop := t = dialogTag ∨ t = m.provTag

variable (m : Media)

theorem liveDialog : m.live dialogTag = true := by simp [Media.live,dialogTag]
theorem liveProv : m.live m.provTag = true := by simp [Media.live,Media.provTag]
theorem liveActive : m.live m.activeTag = true := by simp [Media.live,Media.activeTag]

theorem liveSettled {m : Media} {t : Tag} (settled : m.Settled t) : m.live t = true := by
  rcases settled with rfl | rfl
  · exact liveDialog m
  · exact liveActive m

theorem swapSettled (ok : Bool) {t : Tag} (place : (if ok then m.Fresh else m.Settled) t) :
    (m.swapPools ok).Settled t := by
  cases ok with
  | true =>
    rcases place with rfl | rfl
    · exact .inl rfl
    · refine .inr ?_
      simp [Media.activeTag,Media.provTag,Media.swapPools,Function.update]
  | false =>
    rcases place with rfl | rfl
    · exact .inl rfl
    · refine .inr ?_
      simp [Media.activeTag,Media.swapPools,Function.update]

/- What holds in every state: nothing is freed, and while the pools are in step the SDPs are where they should be. -/
structure Session.Sound (s : Session) : Prop where
  alive : ∀ t ∈ s.media.held, s.media.live t = true
  shape : s.unsettled = false → ∀ neg, s.media.neg = some neg → Shape s.media.Settled s.media.Fresh neg
  ended : s.unsettled = true → s.disconnected = true

theorem localOfferShape : Shape m.Settled m.Fresh (createWLocalOffer dialogTag) :=
  ⟨withinNone _,withinNone _,nofun,fun _ => ⟨withinNone _,withinSome (.inl rfl),withinSome (.inl rfl),rfl⟩,nofun,
    nofun⟩

theorem remoteOfferShape (initial : Bool) : Shape m.Settled m.Fresh (createWRemoteOffer dialogTag initial) := by
  cases initial with
  | false => exact ⟨withinNone _,withinNone _,nofun,nofun,fun _ => ⟨withinNone _,rfl,
    withinSome (.inl rfl),nofun,rfl⟩,nofun⟩
  | true =>
    exact ⟨withinNone _,withinNone _,nofun,nofun,nofun,fun _ => ⟨withinSome (.inl rfl),withinSome (.inl rfl),nofun,
      fun _ => withinSome (.inl rfl),fun _ => withinNone _⟩⟩

theorem localOfferHeld : ∀ t ∈ (createWLocalOffer dialogTag).held, t = dialogTag := by decide

theorem remoteOfferHeld (initial : Bool) : ∀ t ∈ (createWRemoteOffer dialogTag initial).held, t = dialogTag := by
  cases initial <;> decide

structure Session.Keeps (s out : Session) : Prop where
  prov : out.media.prov = s.media.prov
  generation : out.media.generation = s.media.generation
  held : ∀ t ∈ out.media.held, t ∈ s.media.held ∨ s.media.Fresh t
  shape : (∀ neg, s.media.neg = some neg → Shape s.media.Settled s.media.Fresh neg) →
    ∀ neg, out.media.neg = some neg → Shape s.media.Settled s.media.Fresh neg
  ended : s.disconnected = true → out.disconnected = true
  unsettled : out.unsettled = s.unsettled

theorem keepsRefl (s : Session) : s.Keeps s := ⟨rfl,rfl,fun _ => .inl,id,id,rfl⟩

section Keeps
variable {s mid out : Session}

theorem Session.Keeps.settled (keeps : s.Keeps out) : out.media.Settled = s.media.Settled := by
  unfold Media.Settled Media.activeTag
  rw [keeps.prov,keeps.generation]

theorem Session.Keeps.fresh (keeps : s.Keeps out) : out.media.Fresh = s.media.Fresh := by
  unfold Media.Fresh Media.provTag
  rw [keeps.prov,keeps.generation]

theorem Session.Keeps.live (keeps : s.Keeps out) : out.media.live = s.media.live := by
  unfold Media.live
  rw [keeps.generation]

theorem Session.Keeps.trans (first : s.Keeps mid) (second : mid.Keeps out) : s.Keeps out where
  prov := second.prov.trans first.prov
  generation := second.generation.trans first.generation
  held t member := by
    rcases second.held t member with old | fresh
    · exact first.held t old
    · exact .inr (first.fresh ▸ fresh)
  shape before := by
    have between := second.shape
    rw [first.settled,first.fresh] at between
    exact between (first.shape before)
  ended := second.ended ∘ first.ended
  unsettled := second.unsettled.trans first.unsettled

theorem Session.Keeps.alive (keeps : s.Keeps out) (alive : ∀ t ∈ s.media.held, s.media.live t = true) :
    ∀ t ∈ out.media.held, out.media.live t = true := by
  intro t member
  rw [keeps.live]
  rcases keeps.held t member with old | rfl | rfl
  · exact alive t old
  · exact liveDialog _
  · exact liveProv _

theorem Session.Sound.keeps (sound : s.Sound) (keeps : s.Keeps out) : out.Sound where
  alive := keeps.alive sound.alive
  shape settled neg here := by
    rw [keeps.settled,keeps.fresh]
    exact keeps.shape (sound.shape (keeps.unsettled.symm.trans settled)) neg here
  ended unsettled := keeps.ended (sound.ended (keeps.unsettled.symm.trans unsettled))

theorem applyKeeps {call : Neg → Except NegError Neg} {pool : Tag} (adds : Adds pool call) (place : s.media.Fresh pool)
    (shapes : ∀ neg next, Shape s.media.Settled s.media.Fresh neg → call neg = .ok next →
      Shape s.media.Settled s.media.Fresh next) (result : s.apply call = some out) : s.Keeps out := by
  unfold Session.apply Media.apply at result
  split at result
  · cases result
    exact keepsRefl s
  · next neg here =>
    split at result
    · next next called =>
      cases result
      refine ⟨rfl,rfl,fun t member => ?_,fun before other same => ?_,id,rfl⟩
      · rcases adds neg next called t member with old | rfl
        · exact .inl (by simpa only [Media.held,here] using old)
        · exact .inr place
      · cases same
        exact shapes neg next (before neg here) called
    · contradiction
    · cases result
      exact keepsRefl s

theorem createKeeps (neg : Neg) (held : ∀ t ∈ neg.held, t = dialogTag)
    (shape : Shape s.media.Settled s.media.Fresh neg) :
    s.Keeps { s with media := { s.media with neg := some neg } } where
  prov := rfl
  generation := rfl
  held t member := .inr (.inl (held t member))
  shape := by
    rintro _ _ ⟨⟩
    exact shape
  ended := id
  unsettled := rfl

theorem setSdpAnswerKeeps (result : s.setSdpAnswer = some out) : s.Keeps out :=
  applyKeeps (setLocalAnswerAdds _) (.inr rfl) (fun _ _ shape called => shape.setLocalAnswer (.inr rfl) called) result

theorem modifyKeeps {pool : Tag} (place : s.media.Fresh pool)
    (result : s.apply (fun neg => neg.modifyLocalOffer2 pool) = some out) : s.Keeps out :=
  applyKeeps (modifyLocalOfferAdds _) place (fun _ _ shape called => (shape.modifyLocalOffer2 place called).1) result

theorem cancelKeeps (result : s.apply Neg.cancelOffer = some out) : s.Keeps out :=
  applyKeeps (cancelOfferAdds dialogTag) (.inl rfl) (fun _ _ shape called => (shape.cancelOffer called).1) result

theorem localOfferKeeps : s.Keeps { s with media := { s.media with neg := some (createWLocalOffer dialogTag) } } :=
  createKeeps _ localOfferHeld (localOfferShape _)

theorem setLocalSdpKeeps (result : s.setLocalSdp = some out) : s.Keeps out := by
  unfold Session.setLocalSdp at result
  split at result
  · cases result
    exact localOfferKeeps
  · split at result
    · exact setSdpAnswerKeeps result
    · split at result
      · exact modifyKeeps (.inl rfl) result
      · cases result
        exact keepsRefl s

theorem reinviteKeeps (result : s.reinvite = some out) : s.Keeps out := by
  unfold Session.reinvite at result
  split at result
  · cases result
    exact localOfferKeeps
  · split at result
    · exact setSdpAnswerKeeps result
    · exact modifyKeeps (.inr rfl) result
    · cases result
      exact keepsRefl s

theorem updateKeeps (result : s.update = some out) : s.Keeps out := by
  unfold Session.update at result
  split at result
  · cases result
    exact keepsRefl s
  · exact modifyKeeps (.inr rfl) result

theorem callKeeps {c : Call} (result : s.call c = some out) : s.Keeps out := by
  cases c with
  | setLocalSdp => exact setLocalSdpKeeps result
  | setSdpAnswer => exact setSdpAnswerKeeps result
  | reinvite => exact reinviteKeeps result
  | update => exact updateKeeps result
  | cancelOffer => exact cancelKeeps result
  | terminate =>
    cases result
    exact ⟨rfl,rfl,fun _ => .inl,id,fun _ => rfl,rfl⟩

theorem callsKeeps {calls : List Call} (result : s.calls calls = some out) : s.Keeps out := by
  induction calls generalizing s with
  | nil =>
    cases result
    exact keepsRefl _
  | cons c rest ih =>
    obtain ⟨mid,first,later⟩ := Option.bind_eq_some_iff.mp result
    exact (callKeeps first).trans (ih later)

end Keeps

/- The offer that is open when a callback returns, which was entered with none: whether it was allocated from pool_prov. -/
def Call.opens : Call → Option Bool
  | .setLocalSdp => some false
  | .reinvite => some true
  | .update => some true
  | _ => none

def offerLeft (left : Option Bool) : List Call → Option Bool
  | [] => left
  | c :: rest => offerLeft (if c = .cancelOffer then none else left.or c.opens) rest

/- The negotiator while on_media_update runs, with the offer that is open so far. -/
def During (keep : Tag → Prop) : Option Bool → Neg → Prop
  | none, neg => neg.state = .done ∧ Shape keep (fun t => t = dialogTag) neg
  | some false, neg => neg.state = .localOffer ∧ Shape keep (fun t => t = dialogTag) neg
  | some true, neg => neg.state = .localOffer ∧ Shape keep (fun _ => True) neg

section During
variable {keep : Tag → Prop} {left : Option Bool} {neg : Neg} {s out : Session}

theorem During.state (during : During keep left neg) : neg.state = if left.isSome then .localOffer else .done := by
  rcases left with _ | _ | _ <;> exact during.1

theorem During.weaken (during : During keep left neg) : Shape keep (fun _ => True) neg := by
  rcases left with _ | _ | _
  · exact during.2.mono (fun _ => id) fun _ _ => trivial
  · exact during.2.mono (fun _ => id) fun _ _ => trivial
  · exact during.2

theorem applyDuring {call : Neg → Except NegError Neg} (after : Option Bool) (here : s.media.neg = some neg)
    (ok : ∀ next, call neg = .ok next → During keep after next)
    (refused : call neg = .error .inState → During keep after neg) (other : call neg ≠ .error .noSdp)
    (result : s.apply call = some out) :
    out.disconnected = s.disconnected ∧ ∃ next, out.media.neg = some next ∧ During keep after next := by
  unfold Session.apply Media.apply at result
  rw [here] at result
  cases called : call neg with
  | ok next =>
    simp only [called,Option.map_some,Option.some.injEq] at result
    cases result
    exact ⟨rfl,next,rfl,ok next called⟩
  | error e =>
    cases e with
    | nullPointer => simp only [called,Option.map_none] at result; contradiction
    | noSdp => exact absurd called other
    | inState =>
      simp only [called,Option.map_some,Option.some.injEq] at result
      cases result
      exact ⟨rfl,neg,here,refused called⟩

theorem setAnswerRefused (during : During keep left neg) (pool : Tag) : neg.setLocalAnswer pool = .error .inState := by
  have state := during.state
  unfold Neg.setLocalAnswer
  rw [if_pos]
  cases left <;> simp [state]

theorem openDuring {pool : Tag} (prov : Bool) (here : s.media.neg = some neg) (during : During keep left neg)
    (place : prov = false → pool = dialogTag)
    (result : s.apply (fun neg => neg.modifyLocalOffer2 pool) = some out) : out.disconnected = s.disconnected ∧
      ∃ next, out.media.neg = some next ∧ During keep (left.or (some prov)) next := by
  have state := during.state
  refine applyDuring _ here (fun next called => ?_) (fun refused => ?_) ?_ result
  · cases left with
    | none =>
      cases prov with
      | false => exact (during.2.modifyLocalOffer2 (place rfl) called).symm
      | true => exact (during.weaken.modifyLocalOffer2 trivial called).symm
    | some => simp [Neg.modifyLocalOffer2,state] at called
  · cases left with
    | none =>
      unfold Neg.modifyLocalOffer2 at refused
      rw [if_neg (not_not.mpr during.1)] at refused
      split at refused <;> contradiction
    | some => exact during
  · unfold Neg.modifyLocalOffer2
    split
    · simp
    · split <;> simp

theorem callDuring {c : Call} (lives : c ≠ .terminate) (ended : s.disconnected = false)
    (here : s.media.neg = some neg) (during : During keep left neg) (result : s.call c = some out) :
    out.disconnected = false ∧ ∃ next, out.media.neg = some next ∧
      During keep (if c = .cancelOffer then none else left.or c.opens) next := by
  have state := during.state
  have unchanged : left.or none = left := Option.or_none
  cases c with
  | terminate => exact absurd rfl lives
  | setSdpAnswer =>
    obtain ⟨same,found⟩ := applyDuring left here (fun next called => by
      rw [setAnswerRefused during] at called; contradiction) (fun _ => during)
      (by rw [setAnswerRefused during]; simp) result
    refine ⟨same.trans ended,?_⟩
    change ∃ next, out.media.neg = some next ∧ During keep (left.or none) next
    rw [unchanged]
    exact found
  | cancelOffer =>
    obtain ⟨same,found⟩ := applyDuring none here
      (fun next called => by
        obtain ⟨shape,state⟩ := during.weaken.cancelOffer called
        refine ⟨state,shape.activeLocal,shape.activeRemote,shape.done,?_,?_,?_⟩ <;>
          (intro other; rw [state] at other; contradiction))
      (fun refused => by
        cases left with
        | none => exact during
        | some => simp [Neg.cancelOffer,state] at refused)
      (by unfold Neg.cancelOffer; split <;> simp) result
    exact ⟨same.trans ended,found⟩
  | setLocalSdp =>
    change s.setLocalSdp = some out at result
    simp only [Session.setLocalSdp,here] at result
    rw [if_neg (by cases left <;> simp [state])] at result
    split at result
    · obtain ⟨same,found⟩ := openDuring false here during (fun _ => rfl) result
      exact ⟨same.trans ended,found⟩
    · cases result
      cases left with
      | none => exact absurd during.1 ‹_›
      | some => exact ⟨ended,neg,here,during⟩
  | reinvite =>
    change s.reinvite = some out at result
    simp only [Session.reinvite,here] at result
    cases left with
    | none =>
      rw [during.1] at result
      obtain ⟨same,found⟩ := openDuring true here during (by simp) result
      exact ⟨same.trans ended,found⟩
    | some =>
      simp only [state,Option.isSome_some,if_true] at result
      cases result
      exact ⟨ended,neg,here,during⟩
  | update =>
    change s.update = some out at result
    simp only [Session.update,Media.state,here,ended] at result
    split at result
    · next other =>
      cases result
      cases left with
      | none => exact absurd during.1 (other.resolve_left (by simp))
      | some => exact ⟨ended,neg,here,during⟩
    · obtain ⟨same,found⟩ := openDuring true here during (by simp) result
      exact ⟨same.trans ended,found⟩

theorem callsDuring {calls : List Call} (lives : .terminate ∉ calls) (ended : s.disconnected = false)
    (here : s.media.neg = some neg) (during : During keep left neg) (result : s.calls calls = some out) :
    out.disconnected = false ∧ ∃ next, out.media.neg = some next ∧ During keep (offerLeft left calls) next := by
  induction calls generalizing s left neg with
  | nil =>
    cases result
    exact ⟨ended,neg,here,during⟩
  | cons c rest ih =>
    obtain ⟨mid,first,later⟩ := Option.bind_eq_some_iff.mp result
    obtain ⟨ended',next,here',during'⟩ :=
      callDuring (fun same => lives (same ▸ List.mem_cons_self)) ended here during first
    exact ih (fun member => lives (List.mem_cons_of_mem c member)) ended' here' during' later

end During

/- The application ends the session during the callback, or it had ended: then no pool is swapped or reset. -/
def Session.Ends (s : Session) (nego : Nego) : Prop := s.disconnected = true ∨ .terminate ∈ nego.calls

def Session.answers (s : Session) : Nat :=
  match s.media.neg with
  | none => 0
  | some neg => neg.answers

section Negotiate
variable {s out : Session} {nego : Nego}

theorem callsEnd {calls : List Call} (result : s.calls calls = some out) (ends : .terminate ∈ calls) :
    out.disconnected = true := by
  induction calls generalizing s with
  | nil => simp at ends
  | cons c rest ih =>
    obtain ⟨mid,first,later⟩ := Option.bind_eq_some_iff.mp result
    rcases List.mem_cons.mp ends with rfl | member
    · cases first
      exact (callsKeeps later).ended rfl
    · exact ih later member

theorem negotiateCases (waiting : s.media.state = .waitNego) (result : s.negotiateSdp nego = some out) :
    ∃ negotiated after, s.apply (fun neg => neg.negotiate s.media.provTag nego.ok) = some negotiated ∧
      negotiated.calls nego.calls = some after ∧
      out = if after.disconnected then { after with unsettled := true }
        else { after with media := after.media.swapPools nego.ok } := by
  unfold Session.negotiateSdp at result
  rw [if_neg (not_not.mpr waiting)] at result
  obtain ⟨negotiated,first,rest⟩ := Option.bind_eq_some_iff.mp result
  obtain ⟨after,second,last⟩ := Option.bind_eq_some_iff.mp rest
  refine ⟨negotiated,after,first,second,?_⟩
  split at last <;> cases last
  · next ended => rw [if_pos ended]
  · next ended => rw [if_neg ended]

theorem negotiateHeld {call : Neg → Except NegError Neg} {pool : Tag} (adds : Adds pool call) (place : s.media.Fresh pool)
    (alive : ∀ t ∈ s.media.held, s.media.live t = true) (result : s.apply call = some out) :
    (∀ t ∈ out.media.held, out.media.live t = true) ∧ out.media.prov = s.media.prov ∧
      out.media.generation = s.media.generation ∧ out.disconnected = s.disconnected ∧
      out.unsettled = s.unsettled := by
  unfold Session.apply Media.apply at result
  split at result
  · cases result
    exact ⟨alive,rfl,rfl,rfl,rfl⟩
  · next neg here =>
    split at result
    · next next called =>
      cases result
      refine ⟨fun t member => ?_,rfl,rfl,rfl,rfl⟩
      rcases adds neg next called t member with old | rfl
      · exact alive t (by simpa only [Media.held,here] using old)
      · rcases place with same | same
        · rw [same]; exact liveDialog _
        · rw [same]; exact liveProv s.media
    · contradiction
    · cases result
      exact ⟨alive,rfl,rfl,rfl,rfl⟩

/- What a negotiation rests on when its pools will be swapped or reset. -/
structure Session.Ready (s : Session) (nego : Nego) (neg : Neg) : Prop where
  here : s.media.neg = some neg
  settled : s.unsettled = false
  activeLocal : Within s.media.Settled neg.activeLocalSdp
  activeRemote : Within s.media.Settled neg.activeRemoteSdp
  initial : Within s.media.Fresh neg.initialSdp
  remote : Within s.media.Fresh neg.negRemoteSdp
  given : neg.negRemoteSdp ≠ none
  tmp : nego.ok = false → Within s.media.Settled neg.initialSdpTmp
  quiet : offerLeft none nego.calls ≠ some true

theorem negotiateSound (alive : ∀ t ∈ s.media.held, s.media.live t = true) (waiting : s.media.state = .waitNego)
    (ready : ¬s.Ends nego → ∃ neg, s.Ready nego neg) (result : s.negotiateSdp nego = some out) : out.Sound := by
  obtain ⟨negotiated,after,first,second,rfl⟩ := negotiateCases waiting result
  obtain ⟨alive',prov,generation,ended,unsettled'⟩ := negotiateHeld (negotiateAdds _ _) (.inr rfl) alive first
  have keeps := callsKeeps second
  by_cases over' : after.disconnected = true
  · rw [if_pos over']
    exact ⟨keeps.alive alive',(by simp),fun _ => over'⟩
  · rw [if_neg over']
    have lives : ¬s.Ends nego := by
      rintro (before | during)
      · exact over' (keeps.ended (ended.trans before))
      · exact over' (callsEnd second during)
    obtain ⟨neg,ready⟩ := ready lives
    have state : neg.state = .waitNego := by
      have := ready.here
      simpa only [Media.state,this] using waiting
    -- the negotiator is back in DONE, and all that it holds is where the coming reset does no harm
    have settle : ∃ next, negotiated.media.neg = some next ∧
        During (if nego.ok then s.media.Fresh else s.media.Settled) none next := by
      simp only [Session.apply,Media.apply,ready.here] at first
      cases called : neg.negotiate s.media.provTag nego.ok with
      | error =>
        unfold Neg.negotiate at called
        rw [if_neg (not_not.mpr state),if_neg ready.given] at called
        contradiction
      | ok next =>
        simp only [called,Option.map_some,Option.some.injEq] at first
        cases first
        exact ⟨next,rfl,negotiateShape (.inr rfl) ready.activeLocal ready.activeRemote ready.initial ready.remote
          ready.tmp called⟩
    obtain ⟨next,here,during⟩ := settle
    have open' : negotiated.disconnected = false := by
      rw [ended]
      exact Bool.eq_false_iff.mpr fun h => lives (.inl h)
    obtain ⟨_,last,here',during'⟩ := callsDuring (fun member => lives (.inr member)) open' here during second
    have pools : after.media.Settled = s.media.Settled ∧ after.media.Fresh = s.media.Fresh := by
      unfold Media.Settled Media.Fresh Media.activeTag Media.provTag
      rw [keeps.prov.trans prov,keeps.generation.trans generation]
      exact ⟨rfl,rfl⟩
    obtain ⟨rests,inner⟩ : (last.state = .done ∨ last.state = .localOffer) ∧
        Shape (if nego.ok then s.media.Fresh else s.media.Settled) (fun t => t = dialogTag) last := by
      have quiet := ready.quiet
      generalize offerLeft none nego.calls = left at quiet during'
      rcases left with _ | _ | _
      · exact ⟨.inl during'.1,during'.2⟩
      · exact ⟨.inr during'.1,during'.2⟩
      · exact absurd rfl quiet
    have shape : Shape (after.media.swapPools nego.ok).Settled (fun t => t = dialogTag) last := by
      refine inner.mono (fun t place => swapSettled after.media nego.ok ?_) fun _ => id
      rw [pools.1,pools.2]
      exact place
    refine ⟨fun t member => ?_,fun _ other same => ?_,fun unsettled => ?_⟩
    · have inside : t ∈ last.held := by simpa only [Media.held,Media.swapPools,here'] using member
      rcases shape.places rests t inside with settled | rfl
      · exact liveSettled settled
      · exact liveDialog _
    · rw [show (after.media.swapPools nego.ok).neg = some last from here'] at same
      cases same
      exact shape.mono (fun _ => id) fun _ => .inl
    · have same : after.unsettled = false := by rw [keeps.unsettled,unsettled',ready.settled]
      cases same.symm.trans unsettled

theorem Session.Sound.ready (sound : s.Sound) (waiting : s.media.state = .waitNego) (lives : ¬s.Ends nego)
    (single : nego.ok = false → s.answers ≤ 1) (quiet : offerLeft none nego.calls ≠ some true) :
    ∃ neg, s.Ready nego neg := by
  have settled : s.unsettled = false := Bool.eq_false_iff.mpr fun h => lives (.inl (sound.ended h))
  cases here : s.media.neg with
  | none => simp [Media.state,here] at waiting
  | some neg =>
    have state : neg.state = .waitNego := by simpa only [Media.state,here] using waiting
    have shape := sound.shape settled neg here
    obtain ⟨initial,remote,given,_,tmp⟩ := shape.waitNego state
    exact ⟨neg,here,settled,shape.activeLocal,shape.activeRemote,initial,remote,given,
      fun fails => tmp (by simpa only [Session.answers,here] using single fails),quiet⟩

end Negotiate

/- What each step has to leave alone: an offer made from pool_prov in on_media_update is cancelled there again, a negotiation
fails only when its answer was set once, and a session whose pools were left as they were does not come back. All this matters
only while the pools are swapped and reset. -/
def Session.Careful (s : Session) : Step → Prop
  | .checkSdp _ _ nego => s.Ends nego ∨ offerLeft none nego.calls ≠ some true
  | .processAnswer _ nego => s.Ends nego ∨ offerLeft none nego.calls ≠ some true ∧ (nego.ok = false → s.answers ≤ 1)
  | .pendingAnswer nego => s.Ends nego ∨ offerLeft none nego.calls ≠ some true ∧ (nego.ok = false → s.answers ≤ 1)
  | .respondUpdate nego => s.Ends nego ∨ offerLeft none nego.calls ≠ some true ∧ (nego.ok = false → s.answers ≤ 1)
  | .restart => s.unsettled = false
  | _ => True

section Steps
variable {s out : Session} {nego : Nego}

theorem negotiateSdpSound (sound : s.Sound)
    (careful : s.Ends nego ∨ offerLeft none nego.calls ≠ some true ∧ (nego.ok = false → s.answers ≤ 1))
    (result : s.negotiateSdp nego = some out) : out.Sound := by
  by_cases waiting : s.media.state = .waitNego
  · refine negotiateSound sound.alive waiting (fun lives => ?_) result
    obtain ⟨quiet,single⟩ := careful.resolve_left lives
    exact sound.ready waiting lives single quiet
  · unfold Session.negotiateSdp at result
    rw [if_pos waiting] at result
    cases result
    exact sound

theorem negotiateAnswerSound (sound : s.Sound)
    (careful : s.Ends nego ∨ offerLeft none nego.calls ≠ some true ∧ (nego.ok = false → s.answers ≤ 1))
    (result : s.negotiateAnswer nego = some out) : out.Sound := by
  unfold Session.negotiateAnswer at result
  split at result
  · cases result
    exact sound
  · split at result
    · exact negotiateSdpSound sound careful result
    · cases result
      exact sound

theorem setSdpAnswerFirst {neg : Neg} (sound : s.Sound) (lives : ¬s.Ends nego) (here : s.media.neg = some neg)
    (state : neg.state = .remoteOffer) (result : s.setSdpAnswer = some out) : out.answers = 1 := by
  have settled : s.unsettled = false := Bool.eq_false_iff.mpr fun h => lives (.inl (sound.ended h))
  obtain ⟨_,_,_,_,answers⟩ := (sound.shape settled neg here).remoteOffer state
  simp only [Session.setSdpAnswer,Session.apply,Media.apply,here] at result
  unfold Neg.setLocalAnswer at result
  rw [if_neg (by simp [state])] at result
  split at result
  · next next called =>
    split at called <;> cases called <;> cases result <;> simp only [Session.answers,answers]
  · simp at result
  · next refused =>
    split at refused <;> contradiction

theorem processAnswerSound (sound : s.Sound) (localSdp : Bool)
    (careful : s.Ends nego ∨ offerLeft none nego.calls ≠ some true ∧ (nego.ok = false → s.answers ≤ 1))
    (result : s.processAnswer localSdp nego = some out) : out.Sound := by
  obtain ⟨mid,first,second⟩ := Option.bind_eq_some_iff.mp result
  unfold Session.takeLocalSdp at first
  split at first
  · split at first
    · next none =>
      cases first
      refine negotiateAnswerSound (sound.keeps localOfferKeeps) ?_ second
      exact careful.imp id fun h => ⟨h.1,fun _ => Nat.zero_le 1⟩
    · next neg here =>
      split at first
      · next state =>
        have keeps := setSdpAnswerKeeps first
        refine negotiateAnswerSound (sound.keeps keeps) ?_ second
        by_cases lives : s.Ends nego
        · exact .inl (lives.imp keeps.ended id)
        · refine .inr ⟨(careful.resolve_left lives).1,fun _ => ?_⟩
          exact Nat.le_of_eq (setSdpAnswerFirst sound lives here state first)
      · cases first
        exact negotiateAnswerSound sound careful second
  · cases first
    exact negotiateAnswerSound sound careful second

theorem respondUpdateSound (sound : s.Sound)
    (careful : s.Ends nego ∨ offerLeft none nego.calls ≠ some true ∧ (nego.ok = false → s.answers ≤ 1))
    (result : s.respondUpdate nego = some out) : out.Sound := by
  unfold Session.respondUpdate at result
  obtain ⟨mid,first,second⟩ := Option.bind_eq_some_iff.mp result
  have sound' := negotiateSdpSound sound careful first
  split at second
  · exact sound'.keeps (cancelKeeps second)
  · cases second
    exact sound'

theorem remoteAnswerSound (sound : s.Sound) (state : s.media.state = .localOffer)
    (quiet : s.Ends nego ∨ offerLeft none nego.calls ≠ some true) {answered : Session}
    (first : s.apply (fun neg => neg.setRemoteAnswer s.media.provTag) = some answered)
    (second : answered.negotiateSdp nego = some out) : out.Sound := by
  obtain ⟨alive,prov,generation,ended,unsettled⟩ :=
    negotiateHeld (setRemoteAnswerAdds _) (.inr rfl) sound.alive first
  cases here : s.media.neg with
  | none => simp [Media.state,here] at state
  | some neg =>
    have offered : neg.state = .localOffer := by simpa only [Media.state,here] using state
    simp only [Session.apply,Media.apply,here,Neg.setRemoteAnswer,offered,ne_eq,not_true_eq_false,if_false,
      Option.map_some,Option.some.injEq] at first
    cases first
    refine negotiateSound alive rfl (fun lives => ?_) second
    have settled : s.unsettled = false := Bool.eq_false_iff.mpr fun h => lives (.inl (sound.ended h))
    have shape := sound.shape settled neg here
    obtain ⟨tmp,initial,_,_⟩ := shape.localOffer offered
    exact ⟨_,rfl,settled,shape.activeLocal,shape.activeRemote,initial,withinSome (.inr rfl),nofun,fun _ => tmp,
      quiet.resolve_left lives⟩

theorem checkSdpSound (sound : s.Sound) (reoffer : Bool) (offered : List Call)
    (quiet : s.Ends nego ∨ offerLeft none nego.calls ≠ some true)
    (result : s.checkSdp reoffer offered nego = some out) : out.Sound := by
  obtain ⟨mid,first,rest⟩ := Option.bind_eq_some_iff.mp result
  have keeps : s.Keeps mid := by
    unfold Session.feedOffer at first
    split at first
    · exact modifyKeeps (.inr rfl) first
    · cases first
      exact keepsRefl _
  have sound' := sound.keeps keeps
  have quiet' : mid.Ends nego ∨ offerLeft none nego.calls ≠ some true := quiet.imp (Or.imp keeps.ended id) id
  split at rest
  · have created : mid.Keeps _ := createKeeps _ (remoteOfferHeld false) (remoteOfferShape _ false)
    exact sound'.keeps (created.trans (callsKeeps rest))
  · split at rest
    · obtain ⟨taken,second,third⟩ := Option.bind_eq_some_iff.mp rest
      have offers : mid.Keeps taken :=
        applyKeeps (setRemoteOfferAdds _) (.inr rfl) (fun _ _ shape called => shape.setRemoteOffer (.inr rfl) called)
          second
      exact sound'.keeps (offers.trans (callsKeeps third))
    · split at rest
      · next state =>
        obtain ⟨answered,second,third⟩ := Option.bind_eq_some_iff.mp rest
        exact remoteAnswerSound sound' state quiet' second third
      · cases rest
        exact sound'

theorem createOfferKeeps {created : Bool} (result : s.createOffer created = some out) : s.Keeps out := by
  unfold Session.createOffer at result
  split at result
  · exact modifyKeeps (.inr rfl) result
  · exact applyKeeps (sendLocalOfferAdds _) (.inr rfl) (fun _ _ shape called => shape.sendLocalOffer (.inr rfl) called)
      result

theorem stepSound {step : Step} (sound : s.Sound) (careful : s.Careful step) (result : s.step step = some out) :
    out.Sound := by
  cases step with
  | call => exact sound.keeps (callKeeps result)
  | checkSdp reoffer offered => exact checkSdpSound sound reoffer offered careful result
  | processAnswer localSdp => exact processAnswerSound sound localSdp careful result
  | pendingAnswer => exact negotiateAnswerSound sound careful result
  | respondUpdate => exact respondUpdateSound sound careful result
  | createOffer => exact sound.keeps (createOfferKeeps result)
  | restart =>
    cases result
    exact ⟨sound.alive,sound.shape,fun unsettled => by cases careful.symm.trans unsettled⟩

end Steps

def Session.CarefulRun (s : Session) : List Step → Prop
  | [] => True
  | step :: rest => s.Careful step ∧ ∀ next, s.step step = some next → next.CarefulRun rest

theorem runSound {steps : List Step} {s out : Session} (sound : s.Sound) (careful : s.CarefulRun steps)
    (result : s.run steps = some out) : out.Sound := by
  induction steps generalizing s with
  | nil =>
    cases result
    exact sound
  | cons step rest ih =>
    obtain ⟨next,first,later⟩ := Option.bind_eq_some_iff.mp result
    exact ih (stepSound sound careful.1 first) (careful.2 next first) later

theorem newSessionSound (localSdp remoteSdp : Bool) : (newSession localSdp remoteSdp).Sound := by
  refine ⟨?_,?_,nofun⟩
  · cases localSdp <;> cases remoteSdp <;> decide
  · intro _ neg here
    cases remoteSdp with
    | true =>
      cases here
      exact remoteOfferShape _ localSdp
    | false =>
      cases localSdp with
      | true =>
        cases here
        exact localOfferShape _
      | false => contradiction

theorem heldSdpsAlive (localSdp remoteSdp : Bool) (steps : List Step) {out : Session}
    (careful : (newSession localSdp remoteSdp).CarefulRun steps)
    (result : (newSession localSdp remoteSdp).run steps = some out) :
    ∀ t ∈ out.media.held, out.media.live t = true :=
  (runSound (newSessionSound localSdp remoteSdp) careful result).alive

/- A call that is set up, then put on hold. -/
theorem heldCallAlive : ∃ out, (newSession true false).run
    [.checkSdp false [] ⟨true,[]⟩,.call .reinvite,.checkSdp false [] ⟨true,[]⟩] = some out ∧
    ∀ t ∈ out.media.held, out.media.live t = true := by
  have reached : ((newSession true false).run
    [.checkSdp false [] ⟨true,[]⟩,.call .reinvite,.checkSdp false [] ⟨true,[]⟩]).isSome := rfl
  obtain ⟨out,result⟩ := Option.isSome_iff_exists.mp reached
  refine ⟨out,result,heldSdpsAlive true false _ ?_ result⟩
  exact ⟨.inr nofun,fun _ _ => ⟨trivial,fun _ _ => ⟨.inr nofun,fun _ _ => trivial⟩⟩⟩

/- A re-INVITE that the application answers in on_rx_offer and once more after it, with codecs that the offer does not have:
the initial SDP goes back to the copy that the second answer saved, which is freed with pool_prov. -/
theorem answeredTwiceFreed : ∃ out t, (newSession true false).run
    [.checkSdp false [] ⟨true,[]⟩,.checkSdp false [.setSdpAnswer] ⟨true,[]⟩,.call .setSdpAnswer,
      .processAnswer false ⟨false,[]⟩] = some out ∧
    t ∈ out.media.held ∧ out.media.live t = false :=
  ⟨_,⟨.flip true,1⟩,rfl,by decide,by decide⟩

end Pjproject.Sdp
