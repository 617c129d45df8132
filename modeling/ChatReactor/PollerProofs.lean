import ChatReactor.Poller

/-!
# The tables of `Poller` stay a bijection

`channels_`, `pollfds_` and the `index_` fields describe one relation three times. `Inv` says that they
agree; `updateChannel` and `removeChannel` keep it, whatever the interest of the channels is and
whether or not the asserts are compiled in. Which descriptor is really polled is the sign of
`pollfds_[index].fd`, a second copy of the channel's interest that `updateChannel` only half maintains:
`Good` is lost exactly at the calls `Keeps` excludes.
-/

namespace ChatReactor
namespace Poller

@[simp] theorem assertion_of {nd : Bool} {c : Prop} [Decidable c] (h : c) : assertion nd c = some () := by
  cases nd <;> simp [assertion, check_of h]

theorem decodeFd_coe (n : Nat) : decodeFd (n : Int) = n := by simp [decodeFd]

theorem decodeFd_neg (n : Nat) : decodeFd (-(n : Int) - 1) = n := by
  rw [decodeFd, if_pos (by omega)]; omega

theorem getElem?_insert_int (m : Std.ExtTreeMap Int Nat) (a b : Int) (v : Nat) :
    (m.insert a v)[b]? = if a = b then some v else m[b]? := by
  rw [Std.ExtTreeMap.getElem?_insert]; simp

theorem getElem?_erase_int (m : Std.ExtTreeMap Int Nat) (a b : Int) :
    (m.erase a)[b]? = if a = b then none else m[b]? := by
  rw [Std.ExtTreeMap.getElem?_erase]; simp

/-- The three tables describe the same channels. -/
structure Inv (p : Poller) : Prop where
  fd_inj : ∀ {c d}, (p.chan c).fd = (p.chan d).fd → c = d
  size_eq : p.channels.size = p.pollfds.length
  key_fd : ∀ {f : Int} {c}, p.channels[f]? = some c → f = (p.chan c).fd
  slot : ∀ {c}, p.Registered c → ∃ (i : Nat) (pfd : PollFd),
    (p.chan c).index = i ∧ p.pollfds[i]? = some pfd ∧ decodeFd pfd.fd = (p.chan c).fd
  owner : ∀ {i}, i < p.pollfds.length → ∃ c, p.Registered c ∧ (p.chan c).index = (i : Nat)

theorem Inv.init {fd : Nat → Nat} (hfd : Function.Injective fd) : Inv (init fd) where
  fd_inj h := hfd h
  size_eq := by simp [Poller.init]
  key_fd h := by simp [Poller.init] at h
  slot h := by simp [Registered, Poller.init] at h
  owner h := by simp [Poller.init] at h

variable {pfd : PollFd}

section
variable {p p' : Poller} {c d : Nat} {nd : Bool}

/-- Two registered channels have different indices. -/
theorem Inv.index_inj (h : Inv p) (hc : p.Registered c) (hd : p.Registered d)
    (he : (p.chan c).index = (p.chan d).index) : c = d := by
  obtain ⟨i, pfd, hi, hp, hf⟩ := h.slot hc
  obtain ⟨j, pfd', hj, hp', hf'⟩ := h.slot hd
  have hij : i = j := by omega
  subst hij
  rw [hp] at hp'
  cases hp'
  exact h.fd_inj (by omega)

theorem Inv.not_registered (h : Inv p) (hc : (p.chan c).index < 0) : ¬ p.Registered c := by
  intro hr
  obtain ⟨i, _, hi, _, _⟩ := h.slot hr
  omega

/-- A new channel's descriptor is not a key: the first assert of `updateChannel`. -/
theorem Inv.key_none (h : Inv p) (hc : (p.chan c).index < 0) : p.channels[((p.chan c).fd : Int)]? = none := by
  cases hk : p.channels[((p.chan c).fd : Int)]? with
  | none => rfl
  | some d =>
    have hfd := h.key_fd hk
    have hcd : c = d := h.fd_inj (by omega)
    subst hcd
    exact absurd hk (h.not_registered hc)

/-- The entry of a channel in `pollfds_`. -/
def Slot (p : Poller) (c : Nat) (pfd : PollFd) : Prop := ∃ i : Nat, (p.chan c).index = i ∧ p.pollfds[i]? = some pfd

/-- Descriptors and events stay, and the channels of `K` keep their entries, wherever these are moved. -/
structure SameSlots (K : Nat → Prop) (p p' : Poller) : Prop where
  fd : ∀ x, (p'.chan x).fd = (p.chan x).fd
  events : ∀ x, (p'.chan x).events = (p.chan x).events
  slot : ∀ {x pfd}, K x → p.Slot x pfd → p'.Slot x pfd

theorem SameSlots.decoded {K : Nat → Prop} (hs : SameSlots K p p') (h : Inv p) (hc : p.Registered c) (hK : K c) :
    ∃ (i : Nat) (pfd : PollFd), (p'.chan c).index = i ∧ p'.pollfds[i]? = some pfd ∧ decodeFd pfd.fd = (p'.chan c).fd := by
  obtain ⟨i, pfd, hi, hpfd, hdec⟩ := h.slot hc
  obtain ⟨j, hj, hpfd'⟩ := hs.slot hK ⟨i, hi, hpfd⟩
  exact ⟨j, pfd, hj, hpfd', by rw [hs.fd]; exact hdec⟩

/-- A new `index_` is the only thing that an update or a removal stores in a channel. -/
theorem chan_setIndex (p : Poller) (c : Nat) (n : Int) (x : Nat) :
    (Function.update p.chan c { p.chan c with index := n } x).fd = (p.chan x).fd ∧
      (Function.update p.chan c { p.chan c with index := n } x).events = (p.chan x).events := by
  by_cases hx : x = c
  · subst hx
    simp
  · simp [hx]

/-! ## `updateChannel` -/

/-- `events_` is stored in the object of a channel, before `updateChannel` is called. -/
def setEvents (p : Poller) (c : Nat) (e : BitVec 32) : Poller := p.setChan c { p.chan c with events := e }

section
variable (p : Poller) (c : Nat) (e : BitVec 32)

theorem setEvents_self : (p.setEvents c e).chan c = { p.chan c with events := e } := Function.update_self ..

theorem setEvents_of_ne {x : Nat} (hx : x ≠ c) : (p.setEvents c e).chan x = p.chan x := Function.update_of_ne hx ..

theorem chan_setEvents (x : Nat) :
    ((p.setEvents c e).chan x).fd = (p.chan x).fd ∧ ((p.setEvents c e).chan x).index = (p.chan x).index := by
  by_cases hx : x = c
  · subst hx
    simp [setEvents_self]
  · simp [setEvents_of_ne p c e hx]

theorem registered_setEvents (x : Nat) : (p.setEvents c e).Registered x ↔ p.Registered x := by
  rw [Registered, (chan_setEvents p c e x).1, Registered]
  rfl

end

/-- None of the tables is touched. -/
theorem Inv.setEvents (h : Inv p) (c : Nat) (e : BitVec 32) : Inv (p.setEvents c e) := by
  have hchan := chan_setEvents p c e
  constructor
  · intro x y hxy; rw [(hchan x).1, (hchan y).1] at hxy; exact h.fd_inj hxy
  · exact h.size_eq
  · intro f x hk; rw [(hchan x).1]; exact h.key_fd hk
  · intro x hx; rw [(hchan x).1, (hchan x).2]; exact h.slot ((registered_setEvents p c e x).1 hx)
  · intro i hi
    obtain ⟨x, hx, hix⟩ := h.owner hi
    exact ⟨x, (registered_setEvents p c e x).2 hx, (hchan x).2.trans hix⟩

/-- The first update of a channel: it gets the last slot, polled, whatever its events are. -/
theorem updateChannel_new (h : Inv p) (nd : Bool) (hc : (p.chan c).index < 0) :
    p.updateChannel nd c = some
      { chan := Function.update p.chan c { p.chan c with index := p.pollfds.length }
        pollfds := p.pollfds ++ [⟨(p.chan c).fd, (p.chan c).events.setWidth 16⟩]
        channels := p.channels.insert ((p.chan c).fd : Int) c } := by
  have hlen : ((p.pollfds ++ [(⟨(p.chan c).fd, (p.chan c).events.setWidth 16⟩ : PollFd)]).length : Int) - 1 =
      p.pollfds.length := by simp
  simp only [updateChannel, if_pos hc, assertion_of (h.key_none hc), hlen, Option.bind_eq_bind, Option.bind_some]
  rfl

/-- A later update: the events are copied, and the descriptor is negated if there are none. It is
not restored if there are some. -/
theorem updateChannel_old (h : Inv p) (nd : Bool) (hc : p.Registered c) {i : Nat} (hi : (p.chan c).index = i)
    (hp : p.pollfds[i]? = some pfd) :
    p.updateChannel nd c = some { p with
      pollfds := p.pollfds.set i
        ⟨if (p.chan c).isNoneEvent then -(p.chan c).fd - 1 else pfd.fd, (p.chan c).events.setWidth 16⟩ } := by
  obtain ⟨j, pfd', hj, hp', hdec⟩ := h.slot hc
  have hij : i = j := by omega
  subst hij
  rw [hp] at hp'
  cases hp'
  have hlt : i < p.pollfds.length := (List.getElem?_eq_some_iff.1 hp).1
  have hfd : pfd.fd = (p.chan c).fd ∨ pfd.fd = -(p.chan c).fd - 1 := by
    unfold decodeFd at hdec; split at hdec <;> omega
  have hreg : p.channels[((p.chan c).fd : Int)]? = some c := hc
  have hkey : p.channels[((p.chan c).fd : Int)]? ≠ none := by rw [hreg]; simp
  have hrange : (0 : Int) ≤ (i : Int) ∧ (i : Int) < p.pollfds.length := by omega
  have hnot : ¬ ((i : Int) < 0) := by omega
  simp only [updateChannel, hi, if_neg hnot, assertion_of hkey, assertion_of hreg, assertion_of hrange,
    Int.toNat_natCast, hp, assertion_of hfd, Option.bind_eq_bind, Option.bind_some]
  split <;> rfl

/-- The channels registered after `c` has been inserted. -/
theorem registered_insert (h : Inv p) (hc : (p.chan c).index < 0) (x : Nat) :
    (p.channels.insert ((p.chan c).fd : Int) c)[((p.chan x).fd : Int)]? = some x ↔ p.Registered x ∨ x = c := by
  rw [getElem?_insert_int]
  constructor
  · intro hx
    split at hx
    · exact .inr (Option.some.inj hx).symm
    · exact .inl hx
  · rintro (hx | rfl)
    · have hxc : x ≠ c := by
        rintro rfl
        exact h.not_registered hc hx
      rw [if_neg fun e => hxc (h.fd_inj (by omega)).symm]
      exact hx
    · rw [if_pos rfl]

theorem updateChannel_slots (h : Inv p) (hc : (p.chan c).index < 0) (hp' : p.updateChannel nd c = some p') :
    SameSlots p.Registered p p' ∧ p'.Slot c ⟨(p.chan c).fd, (p.chan c).events.setWidth 16⟩ := by
  rw [updateChannel_new h nd hc] at hp'
  cases hp'
  refine ⟨⟨fun x => (chan_setIndex p c _ x).1, fun x => (chan_setIndex p c _ x).2, ?_⟩, p.pollfds.length, by simp, by simp⟩
  rintro x pfd hx ⟨i, hi, hpfd⟩
  have hxc : x ≠ c := by
    rintro rfl
    exact h.not_registered hc hx
  have hlt : i < p.pollfds.length := (List.getElem?_eq_some_iff.1 hpfd).1
  exact ⟨i, by simpa [hxc] using hi, by rw [List.getElem?_append_left hlt]; exact hpfd⟩

theorem Inv.update_new (h : Inv p) (hc : (p.chan c).index < 0) (hp' : p.updateChannel nd c = some p') : Inv p' := by
  obtain ⟨hslots, i, hi, hnew⟩ := updateChannel_slots h hc hp'
  rw [updateChannel_new h nd hc] at hp'
  cases hp'
  have hfd (x : Nat) := (chan_setIndex p c (p.pollfds.length : Int) x).1
  constructor
  · intro x y hxy; simp only [hfd] at hxy; exact h.fd_inj hxy
  · have hmem : ¬ ((p.chan c).fd : Int) ∈ p.channels := by
      rw [Std.ExtTreeMap.mem_iff_isSome_getElem?, h.key_none hc]; simp
    simp [Std.ExtTreeMap.size_insert, hmem, h.size_eq]
  · intro f x hk
    simp only [hfd]
    rw [getElem?_insert_int] at hk
    split at hk
    · rename_i hfc
      cases hk
      exact hfc.symm
    · exact h.key_fd hk
  · intro x hx
    simp only [Registered, hfd] at hx
    rcases (registered_insert h hc x).1 hx with hx' | rfl
    · exact hslots.decoded h hx' hx'
    · exact ⟨i, _, hi, hnew, by rw [hfd]; exact decodeFd_coe _⟩
  · intro j hj
    simp only [Registered, hfd, registered_insert h hc]
    rcases Nat.lt_or_ge j p.pollfds.length with hlt | hge
    · obtain ⟨x, hx, hix⟩ := h.owner hlt
      have hxc : x ≠ c := by
        rintro rfl
        omega
      exact ⟨x, .inl hx, by simp [hxc, hix]⟩
    · have hjl : j = p.pollfds.length := by simp at hj; omega
      exact ⟨c, .inr rfl, by simp [hjl]⟩

theorem Inv.update_old (h : Inv p) (hc : p.Registered c) (hp' : p.updateChannel nd c = some p') : Inv p' := by
  obtain ⟨i, pfd, hi, hp, hdec⟩ := h.slot hc
  rw [updateChannel_old h nd hc hi hp] at hp'
  cases hp'
  have hlt : i < p.pollfds.length := (List.getElem?_eq_some_iff.1 hp).1
  refine ⟨h.fd_inj, by simp [h.size_eq], h.key_fd, ?_, ?_⟩
  · intro x hx
    by_cases hxc : x = c
    · subst hxc
      refine ⟨i, _, hi, by rw [List.getElem?_set_self hlt], ?_⟩
      dsimp only
      split
      · exact decodeFd_neg _
      · exact hdec
    · obtain ⟨j, pfd', hj, hpj, hdec'⟩ := h.slot hx
      have hij : i ≠ j := by
        rintro rfl
        exact hxc (h.index_inj hx hc (by omega))
      exact ⟨j, pfd', hj, by rw [List.getElem?_set_ne hij]; exact hpj, hdec'⟩
  · intro j hj
    exact h.owner (by simpa using hj)

/-! ## `removeChannel` -/

theorem Registered.mem (hc : p.Registered c) : ((p.chan c).fd : Int) ∈ p.channels := by
  have hreg : p.channels[((p.chan c).fd : Int)]? = some c := hc
  rw [Std.ExtTreeMap.mem_iff_isSome_getElem?, hreg, Option.isSome_some]

/-- The two asserts of `removeChannel` that speak about the interest of the channel. -/
def interestAsserts (nd : Bool) (p : Poller) (c : Nat) (pfd : PollFd) : Option Unit := do
  assertion nd ((p.chan c).isNoneEvent = true)
  assertion nd (pfd.fd = -(p.chan c).fd - 1 ∧ pfd.events.signExtend 32 = (p.chan c).events)

/-- Removing the channel in the last slot pops it. -/
theorem removeChannel_last (nd : Bool) (hc : p.Registered c) {i : Nat} (hi : (p.chan c).index = i)
    (hp : p.pollfds[i]? = some pfd) (hlast : i = p.pollfds.length - 1) :
    p.removeChannel nd c = (interestAsserts nd p c pfd).bind fun _ =>
      some { p with pollfds := p.pollfds.dropLast, channels := p.channels.erase ((p.chan c).fd : Int) } := by
  have hreg : p.channels[((p.chan c).fd : Int)]? = some c := hc
  have hkey : p.channels[((p.chan c).fd : Int)]? ≠ none := by rw [hreg]; simp
  have hmem := hc.mem
  have hlt : i < p.pollfds.length := (List.getElem?_eq_some_iff.1 hp).1
  have hrange : (0 : Int) ≤ (i : Int) ∧ (i : Int) < p.pollfds.length := by omega
  simp only [removeChannel, hi, assertion_of hkey, assertion_of hreg, assertion_of hrange, Int.toNat_natCast, hp,
    if_pos hmem, assertion_of trivial, if_pos hlast, interestAsserts, Option.bind_eq_bind, Option.bind_some,
    Option.bind_assoc]
  rfl

/-- Removing any other channel moves the last `pollfd` into its slot and tells its channel. -/
theorem removeChannel_mid (nd : Bool) (h : Inv p) (hc : p.Registered c) {i : Nat} (hi : (p.chan c).index = i)
    (hp : p.pollfds[i]? = some pfd) (hlast : i ≠ p.pollfds.length - 1) :
    ∃ d back, d ≠ c ∧ p.Registered d ∧ (p.chan d).index = (p.pollfds.length - 1 : Nat) ∧
      p.pollfds[p.pollfds.length - 1]? = some back ∧
      p.removeChannel nd c = (interestAsserts nd p c pfd).bind fun _ =>
        some { chan := Function.update p.chan d { p.chan d with index := i }
               pollfds := (p.pollfds.set i back).dropLast
               channels := p.channels.erase ((p.chan c).fd : Int) } := by
  have hreg : p.channels[((p.chan c).fd : Int)]? = some c := hc
  have hkey : p.channels[((p.chan c).fd : Int)]? ≠ none := by rw [hreg]; simp
  have hmem := hc.mem
  have hlt : i < p.pollfds.length := (List.getElem?_eq_some_iff.1 hp).1
  have hrange : (0 : Int) ≤ (i : Int) ∧ (i : Int) < p.pollfds.length := by omega
  obtain ⟨d, hd, hid⟩ := h.owner (i := p.pollfds.length - 1) (by omega)
  obtain ⟨j, back, hj, hback, hdec⟩ := h.slot hd
  have hjn : j = p.pollfds.length - 1 := by omega
  subst hjn
  have hdc : d ≠ c := by rintro rfl; omega
  have hne : ((p.chan c).fd : Int) ≠ (p.chan d).fd := fun e => hdc (h.fd_inj (by omega))
  have hend : (p.channels.erase ((p.chan c).fd : Int))[decodeFd back.fd]? = some d := by
    rw [hdec, getElem?_erase_int, if_neg hne]; exact hd
  have hpop : ((p.pollfds.set i back).set (p.pollfds.length - 1) pfd).dropLast = (p.pollfds.set i back).dropLast := by
    rw [List.dropLast_eq_take, List.dropLast_eq_take, List.length_set, List.length_set, List.take_set_of_le (Nat.le_refl _)]
  refine ⟨d, back, hdc, hd, hid, hback, ?_⟩
  have hgl : p.pollfds.getLast? = some back := by rw [List.getLast?_eq_getElem?]; exact hback
  simp only [removeChannel, hi, assertion_of hkey, assertion_of hreg, assertion_of hrange, Int.toNat_natCast, hp,
    if_pos hmem, assertion_of trivial, if_neg hlast, hgl, hend, hpop, interestAsserts, Option.bind_eq_bind,
    Option.bind_some, Option.bind_assoc]
  rfl

/-- The channels registered after `c` has been erased. -/
theorem registered_erase (h : Inv p) (hc : p.Registered c) (x : Nat) :
    (p.channels.erase ((p.chan c).fd : Int))[((p.chan x).fd : Int)]? = some x ↔ p.Registered x ∧ x ≠ c := by
  rw [getElem?_erase_int]
  constructor
  · intro hx
    split at hx
    · cases hx
    · rename_i hne
      exact ⟨hx, by rintro rfl; exact hne rfl⟩
  · rintro ⟨hx, hxc⟩
    rw [if_neg fun e => hxc (h.fd_inj (by omega)).symm]
    exact hx

theorem size_erase (h : Inv p) (hc : p.Registered c) :
    (p.channels.erase ((p.chan c).fd : Int)).size = p.pollfds.length - 1 := by
  rw [Std.ExtTreeMap.size_erase, if_pos (Std.ExtTreeMap.mem_iff_contains.1 hc.mem), h.size_eq]

theorem key_fd_erase (h : Inv p) {f : Int} {x : Nat}
    (hk : (p.channels.erase ((p.chan c).fd : Int))[f]? = some x) : f = (p.chan x).fd := by
  rw [getElem?_erase_int] at hk
  split at hk
  · cases hk
  · exact h.key_fd hk

/-- What a removal does to the tables. -/
structure Removed (c : Nat) (p p' : Poller) : Prop extends SameSlots (fun x => p.Registered x ∧ x ≠ c) p p' where
  channels : p'.channels = p.channels.erase ((p.chan c).fd : Int)
  length : p'.pollfds.length = p.pollfds.length - 1
  owner : ∀ {j : Nat}, j < p.pollfds.length - 1 → ∃ x, p.Registered x ∧ x ≠ c ∧ (p'.chan x).index = j

theorem Inv.removed_last (h : Inv p) (hc : p.Registered c) {i : Nat} (hi : (p.chan c).index = i)
    (hlast : i = p.pollfds.length - 1) :
    Removed c p { p with pollfds := p.pollfds.dropLast, channels := p.channels.erase ((p.chan c).fd : Int) } := by
  refine ⟨⟨fun x => rfl, fun x => rfl, ?_⟩, rfl, List.length_dropLast, fun {j} hj => ?_⟩
  · rintro x pfd ⟨hx, hxc⟩ ⟨j, hj, hpj⟩
    have hjl : j < p.pollfds.length := (List.getElem?_eq_some_iff.1 hpj).1
    have hji : j ≠ i := by rintro rfl; exact hxc (h.index_inj hx hc (by omega))
    exact ⟨j, hj, by rw [List.getElem?_dropLast, if_pos (by omega)]; exact hpj⟩
  · obtain ⟨x, hx, hix⟩ := h.owner (i := j) (by omega)
    exact ⟨x, hx, by rintro rfl; omega, hix⟩

theorem Inv.removed_mid (h : Inv p) (hc : p.Registered c) {i : Nat} {back : PollFd} (hi : (p.chan c).index = i)
    (hp : p.pollfds[i]? = some pfd) (hlast : i ≠ p.pollfds.length - 1) (hdc : d ≠ c) (hd : p.Registered d)
    (hid : (p.chan d).index = (p.pollfds.length - 1 : Nat)) (hback : p.pollfds[p.pollfds.length - 1]? = some back) :
    Removed c p { chan := Function.update p.chan d { p.chan d with index := i }
                  pollfds := (p.pollfds.set i back).dropLast
                  channels := p.channels.erase ((p.chan c).fd : Int) } := by
  have hlt : i < p.pollfds.length := (List.getElem?_eq_some_iff.1 hp).1
  refine ⟨⟨fun x => (chan_setIndex p d i x).1, fun x => (chan_setIndex p d i x).2, ?_⟩, rfl, by simp, fun {j} hj => ?_⟩
  · rintro x pfd' ⟨hx, hxc⟩ ⟨j, hj, hpj⟩
    have hjl : j < p.pollfds.length := (List.getElem?_eq_some_iff.1 hpj).1
    by_cases hxd : x = d
    · subst hxd
      have hjn : j = p.pollfds.length - 1 := by omega
      subst hjn
      cases hback.symm.trans hpj
      exact ⟨i, by simp, by rw [List.getElem?_dropLast, if_pos (by simp; omega), List.getElem?_set_self hlt]⟩
    · have hji : j ≠ i := by rintro rfl; exact hxc (h.index_inj hx hc (by omega))
      have hjn : j ≠ p.pollfds.length - 1 := by rintro rfl; exact hxd (h.index_inj hx hd (by omega))
      refine ⟨j, by simpa [hxd] using hj, ?_⟩
      rw [List.getElem?_dropLast, if_pos (by simp; omega), List.getElem?_set_ne hji.symm]
      exact hpj
  · by_cases hji : j = i
    · subst hji
      exact ⟨d, hd, hdc, by simp⟩
    · obtain ⟨x, hx, hix⟩ := h.owner (i := j) (by omega)
      have hxd : x ≠ d := by rintro rfl; omega
      exact ⟨x, hx, by rintro rfl; omega, by simp [hxd, hix]⟩

theorem Inv.removed (h : Inv p) (hc : p.Registered c) (hp' : p.removeChannel nd c = some p') : Removed c p p' := by
  obtain ⟨i, pfd, hi, hp, hdec⟩ := h.slot hc
  by_cases hlast : i = p.pollfds.length - 1
  · rw [removeChannel_last nd hc hi hp hlast] at hp'
    obtain ⟨_, _, hp'⟩ := Option.bind_eq_some_iff.1 hp'
    cases hp'
    exact h.removed_last hc hi hlast
  · obtain ⟨d, back, hdc, hd, hid, hback, heq⟩ := removeChannel_mid nd h hc hi hp hlast
    rw [heq] at hp'
    obtain ⟨_, _, hp'⟩ := Option.bind_eq_some_iff.1 hp'
    cases hp'
    exact h.removed_mid hc hi hp hlast hdc hd hid hback

theorem Removed.registered (hr : Removed c p p') (h : Inv p) (hc : p.Registered c) (x : Nat) :
    p'.Registered x ↔ p.Registered x ∧ x ≠ c := by
  rw [Registered, hr.channels, hr.fd]
  exact registered_erase h hc x

theorem Inv.remove (h : Inv p) (hc : p.Registered c) (hp' : p.removeChannel nd c = some p') : Inv p' := by
  have hr := h.removed hc hp'
  constructor
  · intro x y hxy; rw [hr.fd, hr.fd] at hxy; exact h.fd_inj hxy
  · rw [hr.channels, hr.length]; exact size_erase h hc
  · intro f x hk; rw [hr.channels] at hk; rw [hr.fd]; exact key_fd_erase h hk
  · intro x hx
    have hx' := (hr.registered h hc x).1 hx
    exact hr.decoded h hx'.1 hx'
  · intro j hj
    rw [hr.length] at hj
    obtain ⟨x, hx, hxc, hix⟩ := hr.owner hj
    exact ⟨x, (hr.registered h hc x).2 ⟨hx, hxc⟩, hix⟩

/-- A removal whose interest asserts hold succeeds. -/
theorem Inv.remove_total (h : Inv p) (hc : p.Registered c) {i : Nat} (hi : (p.chan c).index = i)
    (hp : p.pollfds[i]? = some pfd) (hasserts : interestAsserts nd p c pfd = some ()) :
    ∃ p', p.removeChannel nd c = some p' := by
  by_cases hlast : i = p.pollfds.length - 1
  · have heq := removeChannel_last nd hc hi hp hlast
    rw [hasserts, Option.bind_some] at heq
    exact ⟨_, heq⟩
  · obtain ⟨_, _, _, _, _, _, heq⟩ := removeChannel_mid nd h hc hi hp hlast
    rw [hasserts, Option.bind_some] at heq
    exact ⟨_, heq⟩

/-! ## Every run -/

theorem Inv.request (h : Inv p) {r : Request} (hr : r.Legal p) (hp' : p.request nd r = some p') : Inv p' := by
  cases r with
  | update c e =>
    have h1 := h.setEvents c e
    rcases hr with hneg | hreg
    · exact h1.update_new ((chan_setEvents p c e c).2 ▸ hneg) hp'
    · exact h1.update_old ((registered_setEvents p c e c).2 hreg) hp'
  | remove c => exact h.remove hr hp'

theorem Reach.inv {fd : Nat → Nat} (hfd : Function.Injective fd) (h : Reach nd fd p) : Inv p := by
  induction h with
  | init => exact Inv.init hfd
  | request r _ hr hp' ih => exact ih.request hr hp'

/-- An update never aborts, and a removal only by the two asserts on the interest. -/
theorem Inv.request_total (h : Inv p) {r : Request} (hr : r.Legal p) : ∃ p', p.request true r = some p' := by
  cases r with
  | update c e =>
    have h1 := h.setEvents c e
    rcases hr with hneg | hreg
    · exact ⟨_, updateChannel_new h1 true ((chan_setEvents p c e c).2 ▸ hneg)⟩
    · have hreg' := (registered_setEvents p c e c).2 hreg
      obtain ⟨i, pfd, hi, hp, _⟩ := h1.slot hreg'
      exact ⟨_, updateChannel_old h1 true hreg' hi hp⟩
  | remove c =>
    obtain ⟨i, pfd, hi, hp, _⟩ := h.slot hr
    exact h.remove_total hr hi hp rfl

/-- **The poller's tables are a bijection.** After any legal requests on channels with distinct
descriptors, with or without asserts: the two tables have the same size; every registered channel's
index is in range and `pollfds_[index]` stands for its descriptor; no two registered channels share
an index. In a build without asserts no legal request goes wrong. -/
theorem poller_bijection {fd : Nat → Nat} (hfd : Function.Injective fd) (h : Reach nd fd p) :
    p.channels.size = p.pollfds.length ∧
    (∀ c, p.Registered c → ∃ (i : Nat) (pfd : PollFd), (p.chan c).index = i ∧ i < p.pollfds.length ∧
      p.pollfds[i]? = some pfd ∧ decodeFd pfd.fd = (p.chan c).fd) ∧
    (∀ c d, p.Registered c → p.Registered d → (p.chan c).index = (p.chan d).index → c = d) ∧
    (∀ r : Request, r.Legal p → ∃ p', p.request true r = some p') := by
  have hinv := h.inv hfd
  refine ⟨hinv.size_eq, fun c hc => ?_, fun c d hc hd he => hinv.index_inj hc hd he, fun r hr => hinv.request_total hr⟩
  obtain ⟨i, pfd, hi, hp, hdec⟩ := hinv.slot hc
  exact ⟨i, pfd, hi, (List.getElem?_eq_some_iff.1 hp).1, hp, hdec⟩

end

/-- Two channels registered, the first one removed again. -/
theorem poller_bijection_swap : ∃ p, Reach true (fun c => c + 3) p ∧ p.channels.size = 1 ∧ p.pollfds.length = 1 ∧
    p.Registered 1 ∧ (p.chan 1).index = 0 := by
  have h0 : Reach true (fun c => c + 3) (init fun c => c + 3) := .init
  have h1 := Reach.request (.update 0 3) h0 (Or.inl (by decide)) rfl
  have h2 := Reach.request (.update 1 3) h1 (Or.inl (by decide)) rfl
  have h3 := Reach.request (.remove 0) h2 (by unfold Request.Legal Registered; decide) rfl
  have hsize := (poller_bijection (fun _ _ h => by simpa using h) h3).1
  exact ⟨_, h3, hsize, rfl, by unfold Registered; decide, rfl⟩

/-! ## Which descriptors are polled -/

/-- The channel's `pollfd` agrees with its interest: the descriptor is negated exactly when there
are no events, and the events are the channel's. -/
def Polled (p : Poller) (c : Nat) : Prop := ∃ (i : Nat) (pfd : PollFd), (p.chan c).index = i ∧ p.pollfds[i]? = some pfd ∧
  pfd.fd = (if (p.chan c).isNoneEvent then -((p.chan c).fd : Int) - 1 else (p.chan c).fd) ∧
  pfd.events.signExtend 32 = (p.chan c).events

def Good (p : Poller) : Prop := ∀ c, p.Registered c → p.Polled c

/-- A channel is first registered with some event on, and one that has been disabled is not enabled
again. -/
def Keeps (p : Poller) (k : Call) (c : Nat) : Prop :=
  if k = .remove then True
  else if (p.chan c).index < 0 then k.events (p.chan c).events ≠ kNoneEvent
  else (p.chan c).events = kNoneEvent → k.events (p.chan c).events = kNoneEvent

def Keeping (p : Poller) : List (Call × Nat) → Prop
  | [] => True
  | (k, c) :: ks => p.Keeps k c ∧ ∀ p' ∈ p.call false k c, Keeping p' ks

instance (p : Poller) (k : Call) (c : Nat) : Decidable (p.Keeps k c) :=
  inferInstanceAs (Decidable (if k = .remove then True else if _ < _ then _ ≠ _ else _ = _ → _ = _))

instance decidableKeeping : ∀ (p : Poller) (ks : List (Call × Nat)), Decidable (p.Keeping ks)
  | _, [] => .isTrue trivial
  | p, (k, c) :: ks =>
    have := fun p' => decidableKeeping p' ks
    inferInstanceAs (Decidable (p.Keeps k c ∧ ∀ p' ∈ p.call false k c, Keeping p' ks))

/-- The interest sets the members of `Channel` can build. -/
def interests : List (BitVec 32) := [kNoneEvent, kReadEvent, kWriteEvent, kReadEvent ||| kWriteEvent]

variable {e : BitVec 32}

theorem Call.events_mem (k : Call) (he : e ∈ interests) : k.events e ∈ interests := by
  simp only [interests, List.mem_cons, List.not_mem_nil, or_false] at he ⊢
  rcases he with rfl | rfl | rfl | rfl <;> cases k <;> decide

/-- They survive the copy into the 16 bits of `pollfd::events`. -/
theorem signExtend_setWidth (he : e ∈ interests) : (e.setWidth 16).signExtend 32 = e := by
  simp only [interests, List.mem_cons, List.not_mem_nil, or_false] at he
  rcases he with rfl | rfl | rfl | rfl <;> decide

/-- Every channel's interest is one of them. -/
def Small (p : Poller) : Prop := ∀ c, (p.chan c).events ∈ interests

section
variable {p p' : Poller} {c : Nat} {nd : Bool}

/-- What `Good` asks of the other channels. -/
def GoodBut (p : Poller) (c : Nat) : Prop := ∀ x, x ≠ c → p.Registered x → p.Polled x

theorem Good.setEvents (h : p.Good) (c : Nat) (e : BitVec 32) : (p.setEvents c e).GoodBut c := by
  intro x hx hreg
  unfold Polled
  rw [setEvents_of_ne p c e hx]
  exact h x ((registered_setEvents p c e x).1 hreg)

theorem SameSlots.polled {K : Nat → Prop} (hs : SameSlots K p p') {x : Nat} (hK : K x) (hx : p.Polled x) : p'.Polled x := by
  obtain ⟨i, pfd, hi, hpfd, hfd, hev⟩ := hx
  obtain ⟨j, hj, hpfd'⟩ := hs.slot hK ⟨i, hi, hpfd⟩
  refine ⟨j, pfd, hj, hpfd', ?_, by rw [hs.events]; exact hev⟩
  rw [Channel.isNoneEvent, hs.events, hs.fd]
  exact hfd

/-- A first registration is right exactly if some event is on. -/
theorem good_update_new (h : Inv p) (hb : p.GoodBut c) (hc : (p.chan c).index < 0)
    (he : (p.chan c).events ∈ interests) (hp' : p.updateChannel nd c = some p') :
    (∀ x, (p'.chan x).events = (p.chan x).events) ∧ (p'.Good ↔ (p.chan c).events ≠ kNoneEvent) := by
  obtain ⟨hslots, i, hi, hnew⟩ := updateChannel_slots h hc hp'
  have hreg (x : Nat) : p'.Registered x ↔ p.Registered x ∨ x = c := by
    rw [Registered, hslots.fd, ← registered_insert h hc x]
    rw [updateChannel_new h nd hc] at hp'
    cases hp'
    rfl
  refine ⟨hslots.events, fun hgood hnone => ?_, fun hsome x hx => ?_⟩
  · obtain ⟨j, pfd, hj, hpfd, hfd, _⟩ := hgood c ((hreg c).2 (.inr rfl))
    have hij : i = j := by omega
    subst hij
    cases hnew.symm.trans hpfd
    simp only [Channel.isNoneEvent, hslots.events, hslots.fd, hnone, beq_self_eq_true, if_true] at hfd
    omega
  · rcases (hreg x).1 hx with hx' | rfl
    · have hxc : x ≠ c := by
        rintro rfl
        exact h.not_registered hc hx'
      exact hslots.polled hx' (hb x hxc hx')
    · refine ⟨i, _, hi, hnew, ?_, ?_⟩
      · simp [Channel.isNoneEvent, hslots.events, hslots.fd, hsome]
      · rw [hslots.events]
        exact signExtend_setWidth he

/-- A later update is right exactly if it disables the channel or its slot was polled before. -/
theorem good_update_old (h : Inv p) (hb : p.GoodBut c) (hc : p.Registered c) (he : (p.chan c).events ∈ interests)
    {i : Nat} (hi : (p.chan c).index = i) (hp : p.pollfds[i]? = some pfd) (hp' : p.updateChannel nd c = some p') :
    p'.chan = p.chan ∧ (p'.Good ↔ ((p.chan c).events ≠ kNoneEvent → pfd.fd = (p.chan c).fd)) := by
  rw [updateChannel_old h nd hc hi hp] at hp'
  cases hp'
  have hlt : i < p.pollfds.length := (List.getElem?_eq_some_iff.1 hp).1
  refine ⟨rfl, fun hgood hsome => ?_, fun hfd x hx => ?_⟩
  · obtain ⟨j, pfd', hj, hpfd', hfd, _⟩ := hgood c hc
    have hij : i = j := by simpa [hi] using hj
    subst hij
    rw [List.getElem?_set_self hlt] at hpfd'
    cases hpfd'
    simpa [Channel.isNoneEvent, hsome] using hfd
  · by_cases hxc : x = c
    · subst hxc
      refine ⟨i, _, hi, List.getElem?_set_self hlt, ?_, signExtend_setWidth he⟩
      by_cases hnone : (p.chan x).events = kNoneEvent
      · simp [Channel.isNoneEvent, hnone]
      · simp [Channel.isNoneEvent, hnone, hfd hnone]
    · obtain ⟨j, pfd', hj, hpj, hrest⟩ := hb x hxc hx
      have hij : i ≠ j := by
        rintro rfl
        exact hxc (h.index_inj hx hc (by omega))
      exact ⟨j, pfd', hj, by rw [List.getElem?_set_ne hij]; exact hpj, hrest⟩

/-- A removal leaves the slots of the other channels as they are. -/
theorem Good.remove (h : Inv p) (hg : p.Good) (hc : p.Registered c) (hp' : p.removeChannel nd c = some p') :
    (∀ x, (p'.chan x).events = (p.chan x).events) ∧ p'.Good := by
  have hr := h.removed hc hp'
  refine ⟨hr.events, fun x hx => ?_⟩
  have hx' := (hr.registered h hc x).1 hx
  exact hr.polled hx' (hg x hx'.1)

/-- In a good state `removeChannel` of a disabled channel passes every assert. -/
theorem Good.remove_total (h : Inv p) (hg : p.Good) (hc : p.Registered c) (hnone : (p.chan c).isNoneEvent = true) :
    ∃ p', p.removeChannel false c = some p' := by
  obtain ⟨i, pfd, hi, hp, hfd, hev⟩ := hg c hc
  rw [if_pos hnone] at hfd
  exact h.remove_total hc hi hp (by simp [interestAsserts, hnone, hfd, hev])

theorem Small.setEvents (hs : p.Small) (c : Nat) (he : e ∈ interests) : (p.setEvents c e).Small := by
  intro x
  by_cases hx : x = c
  · subst hx
    rw [setEvents_self]
    exact he
  · rw [setEvents_of_ne p c e hx]
    exact hs x

/-- The first call of a channel leads to a good state if it enables something. -/
theorem Good.update_new (h : Inv p) (hs : p.Small) (hg : p.Good) (he : e ∈ interests) (hc : (p.chan c).index < 0) :
    ∃ p', p.request false (.update c e) = some p' ∧ Inv p' ∧ p'.Small ∧ (p'.Good ↔ e ≠ kNoneEvent) := by
  have hq := h.setEvents c e
  have hqs := hs.setEvents c he
  have hc' : ((p.setEvents c e).chan c).index < 0 := (chan_setEvents p c e c).2 ▸ hc
  have hp' := updateChannel_new hq false hc'
  obtain ⟨hev, hiff⟩ := good_update_new hq (hg.setEvents c e) hc' (hqs c) hp'
  refine ⟨_, hp', hq.update_new hc' hp', fun x => by rw [hev]; exact hqs x, ?_⟩
  rw [hiff, setEvents_self]

/-- A later one does unless it enables a channel that was disabled: the slot is negated and stays so. -/
theorem Good.update_old (h : Inv p) (hs : p.Small) (hg : p.Good) (he : e ∈ interests) (hc : p.Registered c) :
    ∃ p', p.request false (.update c e) = some p' ∧ Inv p' ∧ p'.Small ∧
      (p'.Good ↔ ((p.chan c).events = kNoneEvent → e = kNoneEvent)) := by
  have hq := h.setEvents c e
  have hqs := hs.setEvents c he
  have hc' := (registered_setEvents p c e c).2 hc
  obtain ⟨i, pfd, hi, hpfd, hfd, _⟩ := hg c hc
  have hi' : ((p.setEvents c e).chan c).index = i := (chan_setEvents p c e c).2.trans hi
  have hp' := updateChannel_old hq false hc' hi' hpfd
  obtain ⟨hch, hiff⟩ := good_update_old hq (hg.setEvents c e) hc' (hqs c) hi' hpfd hp'
  refine ⟨_, hp', hq.update_old hc' hp', fun x => by rw [hch]; exact hqs x, ?_⟩
  rw [hiff, setEvents_self]
  by_cases hnone : (p.chan c).events = kNoneEvent
  · have hneg : pfd.fd ≠ (p.chan c).fd := by
      rw [hfd, if_pos (by simp [Channel.isNoneEvent, hnone])]
      omega
    simp [hnone, hneg]
  · have hpos : pfd.fd = (p.chan c).fd := by
      rw [hfd]
      simp [Channel.isNoneEvent, hnone]
    simp [hnone, hpos]

/-- **One call.** In a good state every legal call passes its asserts, and the next state is good
exactly if the call is one `Keeps` allows. -/
theorem Good.call (h : Inv p) (hs : p.Small) (hg : p.Good) {k : Call} (hk : k.Legal p c) :
    ∃ p', p.call false k c = some p' ∧ Inv p' ∧ p'.Small ∧ (p'.Good ↔ p.Keeps k c) := by
  by_cases hrem : k = .remove
  · rw [Call.Legal, if_pos hrem] at hk
    obtain ⟨hc, hnone⟩ := hk
    obtain ⟨p', hp'⟩ := hg.remove_total h hc hnone
    obtain ⟨hev, hg'⟩ := hg.remove h hc hp'
    refine ⟨p', ?_, h.remove hc hp', fun x => hev x ▸ hs x, ?_⟩
    · simp [Poller.call, hrem, hnone, hp']
    · simp [Keeps, hrem, hg']
  · rw [Call.Legal, if_neg hrem] at hk
    rw [Poller.call, if_neg hrem, Keeps, if_neg hrem]
    have he : k.events (p.chan c).events ∈ interests := k.events_mem (hs c)
    by_cases hnew : (p.chan c).index < 0
    · rw [if_pos hnew]
      exact hg.update_new h hs he hnew
    · rw [if_neg hnew]
      exact hg.update_old h hs he (hk.resolve_left hnew)

theorem Good.init (fd : Nat → Nat) : (Poller.init fd).Good := by
  intro c hc
  simp [Registered, Poller.init] at hc

theorem Small.init (fd : Nat → Nat) : (Poller.init fd).Small := by
  intro c
  simp [Poller.init, interests]

end

end Poller
end ChatReactor
