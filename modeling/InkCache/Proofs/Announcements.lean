import InkCache.Lib.Superseding
import InkCache.Proofs.Election

/-!
# Announcements in any order

An announcement that is adopted overwrites all that an earlier one has written, and one of a later
term is refused after it; so with one leader a term, announcements supersede one another.
-/

namespace InkCache

open Lib

namespace Leadership

variable {n : Leadership} {a b : LeaderAnnouncement} {announcements : List LeaderAnnouncement}

/-- What a node is after an announcement that it adopts. -/
def adopting (n : Leadership) (a : LeaderAnnouncement) : Leadership where
  role := .replica
  primaryUrl := some a.primaryUrl
  replicaUrls := []
  election :=
    { n.election with
      currentTerm := a.term
      votedFor := if n.election.currentTerm < a.term then some a.primaryUrl
        else n.election.votedFor }

theorem leader_of_lt (ha : a.WellFormed) (h : a.term < n.election.currentTerm) :
    n.leader a.term a.primaryUrl = (n, .staleTerm n.election.currentTerm) := by
  rw [leader, if_neg (not_lt.2 ha.1), if_neg (by simpa using ha.2), if_pos h]

theorem leader_of_le (ha : a.WellFormed) (h : n.election.currentTerm ≤ a.term) :
    n.leader a.term a.primaryUrl = (n.adopting a, .adopted a.term) := by
  have hobserve : n.election.observeTerm a.term (some a.primaryUrl) = (n.adopting a).election := by
    unfold ElectionState.observeTerm adopting
    split_ifs with hlt
    · rfl
    · rw [← le_antisymm h (not_lt.1 hlt)]
  rw [leader, if_neg (not_lt.2 ha.1), if_neg (by simpa using ha.2), if_neg (not_lt.2 h), hobserve]
  rfl

theorem receive_of_lt (ha : a.WellFormed) (h : a.term < n.election.currentTerm) :
    n.receive a = n := by
  rw [receive, leader_of_lt ha h]

theorem receive_of_le (ha : a.WellFormed) (h : n.election.currentTerm ≤ a.term) :
    n.receive a = n.adopting a := by
  rw [receive, leader_of_le ha h]

/-- A later leader's announcement leaves nothing of an earlier one's. -/
theorem adopting_adopting_of_lt (hn : n.election.currentTerm < a.term) (h : b.term < a.term) :
    (n.adopting b).adopting a = n.adopting a := by
  unfold adopting
  dsimp only
  rw [if_pos hn, if_pos h]

theorem adopting_adopting_self (n : Leadership) (a : LeaderAnnouncement) :
    (n.adopting a).adopting a = n.adopting a := by
  simp only [adopting, lt_self_iff_false, if_false]

/-- With one leader a term, the announcement of the later term wins. -/
theorem superseding_receive (hwf : ∀ a ∈ announcements, a.WellFormed)
    (hone : ∀ a ∈ announcements, ∀ b ∈ announcements, a.term = b.term →
      a.primaryUrl = b.primaryUrl) :
    Superseding receive (·.term) {a | a ∈ announcements} := by
  intro a ha b hb hba n
  have hawf := hwf a ha
  have hbwf := hwf b hb
  have hsame : a.term = b.term → a.primaryUrl = b.primaryUrl := hone a ha b hb
  rcases lt_or_ge b.term n.election.currentTerm with hb_lt | hb_le
  · rw [receive_of_lt hbwf hb_lt]
    refine ⟨rfl, ?_⟩
    rcases lt_or_ge a.term n.election.currentTerm with ha_lt | ha_le
    · rw [receive_of_lt hawf ha_lt, receive_of_lt hbwf hb_lt]
    · rw [receive_of_le hawf ha_le]
      exact receive_of_lt hbwf (hb_lt.trans_le ha_le)
  · rw [receive_of_le hbwf hb_le, receive_of_le hawf (hb_le.trans hba)]
    rcases lt_or_eq_of_le hba with hlt | heq
    · refine ⟨?_, receive_of_lt hbwf hlt⟩
      rw [receive_of_le hawf hlt.le]
      exact adopting_adopting_of_lt (hb_le.trans_lt hlt) hlt
    · have hab : a = b := LeaderAnnouncement.ext heq.symm (hsame heq.symm)
      subst hab
      rw [receive_of_le hawf le_rfl, adopting_adopting_self]
      exact ⟨rfl, rfl⟩

theorem deliver_cons (n : Leadership) (a : LeaderAnnouncement)
    (announcements : List LeaderAnnouncement) :
    n.deliver (a :: announcements) = (n.receive a).deliver announcements := rfl

theorem deliver_append (n : Leadership) (earlier later : List LeaderAnnouncement) :
    n.deliver (earlier ++ later) = (n.deliver earlier).deliver later := List.foldl_append

theorem receive_term_le (ha : a.WellFormed) (n : Leadership) :
    n.election.currentTerm ≤ (n.receive a).election.currentTerm := by
  rcases lt_or_ge a.term n.election.currentTerm with hlt | hle
  · rw [receive_of_lt ha hlt]
  · rw [receive_of_le ha hle]
    exact hle

theorem deliver_term_le : ∀ (announcements : List LeaderAnnouncement) (n : Leadership),
    (∀ a ∈ announcements, a.WellFormed) →
      n.election.currentTerm ≤ (n.deliver announcements).election.currentTerm
  | [], _, _ => le_rfl
  | _ :: announcements, n, hwf =>
    (receive_term_le (hwf _ List.mem_cons_self) n).trans
      (deliver_term_le announcements _ fun a ha => hwf a (List.mem_cons_of_mem _ ha))

theorem adoptions_of_lt (ha : a.WellFormed) (h : a.term < n.election.currentTerm) :
    n.adoptions (a :: announcements) = n.adoptions announcements := by
  rw [adoptions, receive_of_lt ha h, leader_of_lt ha h]
  rfl

theorem adoptions_of_le (ha : a.WellFormed) (h : n.election.currentTerm ≤ a.term) :
    n.adoptions (a :: announcements) = a :: (n.adopting a).adoptions announcements := by
  rw [adoptions, receive_of_le ha h, leader_of_le ha h]
  rfl

/-- The terms of the leaders that a node follows do not decrease. -/
theorem adoptions_sorted : ∀ (announcements : List LeaderAnnouncement) (n : Leadership),
    (∀ a ∈ announcements, a.WellFormed) →
      (n.adoptions announcements).Pairwise (·.term ≤ ·.term) ∧
        ∀ a ∈ n.adoptions announcements, n.election.currentTerm ≤ a.term
  | [], _, _ => ⟨.nil, fun _ ha => absurd ha List.not_mem_nil⟩
  | a :: announcements, n, hwf => by
    rw [List.forall_mem_cons] at hwf
    rcases lt_or_ge a.term n.election.currentTerm with hlt | hle
    · rw [adoptions_of_lt hwf.1 hlt]
      exact adoptions_sorted announcements n hwf.2
    · obtain ⟨hsorted, hafter⟩ := adoptions_sorted announcements (n.adopting a) hwf.2
      rw [adoptions_of_le hwf.1 hle, List.pairwise_cons, List.forall_mem_cons]
      exact ⟨⟨hafter, hsorted⟩, hle, fun b hb => hle.trans (hafter b hb)⟩

/-- `PRIMARY_URL` is the last leader's that the node adopted. -/
theorem deliver_primaryUrl : ∀ (announcements : List LeaderAnnouncement) (n : Leadership),
    (∀ a ∈ announcements, a.WellFormed) →
      (n.deliver announcements).primaryUrl =
        ((n.adoptions announcements).getLast?.map fun a => some a.primaryUrl).getD n.primaryUrl
  | [], _, _ => rfl
  | a :: announcements, n, hwf => by
    rw [List.forall_mem_cons] at hwf
    have ih := deliver_primaryUrl announcements (n.receive a) hwf.2
    rcases lt_or_ge a.term n.election.currentTerm with hlt | hle
    · rw [receive_of_lt hwf.1 hlt] at ih
      rw [adoptions_of_lt hwf.1 hlt, deliver_cons, receive_of_lt hwf.1 hlt]
      exact ih
    · rw [adoptions_of_le hwf.1 hle, List.getLast?_cons]
      refine ih.trans ?_
      rw [receive_of_le hwf.1 hle]
      rcases ((n.adopting a).adoptions announcements).getLast? with _ | last
      · rfl
      · rfl

end Leadership

/-- With one leader a term, announcements leave what that of the greatest term leaves alone, and
nothing if it is before the node's: whatever their order and how often each comes. The term never
decreases, and the leaders that the node adopts are of terms that do not decrease. -/
theorem announcements_commute (n : Leadership) (announcements : List LeaderAnnouncement)
    (hwf : ∀ a ∈ announcements, a.WellFormed)
    (hone : ∀ a ∈ announcements, ∀ b ∈ announcements, a.term = b.term →
      a.primaryUrl = b.primaryUrl) :
    (∀ others, (∀ a, a ∈ others ↔ a ∈ announcements) →
      n.deliver others = n.deliver announcements) ∧
    (announcements = [] → n.deliver announcements = n) ∧
    (∀ a ∈ announcements, (∀ b ∈ announcements, b.term ≤ a.term) → n.deliver announcements =
      if n.election.currentTerm ≤ a.term then
        { role := .replica
          primaryUrl := some a.primaryUrl
          replicaUrls := []
          election :=
            { currentTerm := a.term
              votedFor := if n.election.currentTerm < a.term then some a.primaryUrl
                else n.election.votedFor
              selfId := n.election.selfId } }
      else n) ∧
    (∀ earlier, earlier <+: announcements → (n.deliver earlier).election.currentTerm ≤
      (n.deliver announcements).election.currentTerm) ∧
    (n.adoptions announcements).Pairwise (·.term ≤ ·.term) ∧
    (n.deliver announcements).primaryUrl =
      ((n.adoptions announcements).getLast?.map fun a => some a.primaryUrl).getD n.primaryUrl := by
  have hsup := Leadership.superseding_receive hwf hone
  refine ⟨fun others hothers => hsup.foldl_congr (fun a ha => ha) hothers n, ?_, ?_, ?_,
    (Leadership.adoptions_sorted announcements n hwf).1,
    Leadership.deliver_primaryUrl announcements n hwf⟩
  · rintro rfl
    rfl
  · intro a ha hgreatest
    refine (hsup.foldl_eq (fun a ha => ha) ha hgreatest n).trans ?_
    rcases lt_or_ge a.term n.election.currentTerm with hlt | hle
    · rw [if_neg (not_le.2 hlt)]
      exact Leadership.receive_of_lt (hwf a ha) hlt
    · rw [if_pos hle]
      exact Leadership.receive_of_le (hwf a ha) hle
  · rintro earlier ⟨later, rfl⟩
    rw [Leadership.deliver_append]
    exact Leadership.deliver_term_le later _ fun a ha => hwf a (List.mem_append_right _ ha)

/-- Two leaders' announcements that overtake each other, the later leader's twice. -/
theorem announcements_commute_two :
    let start : Leadership := ⟨.primary, none, [js "http://r"], ⟨1, some (js "a"), js "a"⟩⟩
    let second : LeaderAnnouncement := ⟨2, js "http://b"⟩
    let third : LeaderAnnouncement := ⟨3, js "http://c"⟩
    start.deliver [third, second, third] = start.deliver [second, third] ∧
      start.deliver [second, third] =
        ⟨.replica, some (js "http://c"), [], ⟨3, some (js "http://c"), js "a"⟩⟩ := by
  intro start second third
  have h := announcements_commute start [second, third] (by decide) (by decide)
  refine ⟨h.1 _ fun a => ?_, h.2.2.1 third (by simp) (by decide)⟩
  simp only [List.mem_cons, List.not_mem_nil, or_false]
  tauto

end InkCache
