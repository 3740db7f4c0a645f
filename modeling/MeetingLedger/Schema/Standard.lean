import MeetingLedger.Schema.Standard.Mediafile
import MeetingLedger.Schema.Standard.Meeting
import MeetingLedger.Schema.Standard.Motion
import MeetingLedger.Schema.Standard.Organization

/-! # The registry in use unless another one is configured -/

namespace MeetingLedger.Schema

def Standard.collections : List Collection := [
  organization, theme, committee, organizationTag, meeting, user, meetingUser, group,
  motionWorkflow, motionState, motion, projector, projection, topic, agendaItem, mediafile,
  meetingMediafile]

def latestMigrationIndex : UInt64 := 4

/-- The declaration of every collection at the latest migration index. -/
def Registry.standard : Registry :=
  ⟨SortedMap.ofList (Standard.collections.map fun c => (c.name, c))⟩

end MeetingLedger.Schema
