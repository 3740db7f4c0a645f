import MeetingLedger.Schema.Builder

/-! # Collections of media files and of their use in meetings -/

namespace MeetingLedger.Schema.Standard

open Schema.Field

def mediafile : Collection := .declare "mediafile" [
  (plain "id" .number).needed,
  plain "title" .string,
  plain "is_directory" .boolean,
  (plain "filesize" .number).atLeast 0 0,
  plain "filename" .string,
  plain "mimetype" .string,
  plain "token" .string,
  plain "create_timestamp" .timestamp,
  one "parent_id" "mediafile" "child_ids",
  (many "child_ids" "mediafile" "parent_id").cascading,
  (many "meeting_mediafile_ids" "meeting_mediafile" "mediafile_id").cascading,
  (oneOf "owner_id" [("meeting", "mediafile_ids"), ("organization", "mediafile_ids")]).needed]

/-- A file or a directory as a meeting uses it. -/
def meetingMediafile : Collection := .declare "meeting_mediafile" [
  (plain "id" .number).needed,
  (plain "is_public" .boolean).needed.derived,
  (one "mediafile_id" "mediafile" "meeting_mediafile_ids").needed,
  (many "access_group_ids" "group" "meeting_mediafile_access_group_ids").agreeing ["meeting_id"],
  (many "inherited_access_group_ids" "group"
    "meeting_mediafile_inherited_access_group_ids").derived.agreeing ["meeting_id"],
  (many "projection_ids" "projection" "content_object_id").cascading.agreeing ["meeting_id"],
  (one "meeting_id" "meeting" "meeting_mediafile_ids").needed]

end MeetingLedger.Schema.Standard
