import MeetingLedger.Schema.Builder

/-! # Collections of motions: their workflows and states -/

namespace MeetingLedger.Schema.Standard

open Schema.Field

def motionWorkflow : Collection := .declare "motion_workflow" [
  (plain "id" .number).needed,
  (plain "name" .string).needed,
  (many "state_ids" "motion_state" "workflow_id").cascading.agreeing ["meeting_id"],
  (one "first_state_id" "motion_state" "first_state_of_workflow_id").needed.agreeing ["meeting_id"],
  (one "default_workflow_meeting_id" "meeting" "motions_default_workflow_id").protecting,
  (one "meeting_id" "meeting" "motion_workflow_ids").needed]

def motionState : Collection := .declare "motion_state" [
  (plain "id" .number).needed,
  (plain "name" .string).needed,
  (plain "weight" .number).needed,
  ((plain "css_class" .string).needed.allowing ["grey", "red", "green", "lightblue",
    "yellow"]).withDefault (.string "lightblue"),
  plain "show_state_extension_field" .boolean,
  plain "show_recommendation_extension_field" .boolean,
  (one "workflow_id" "motion_workflow" "state_ids").needed.agreeing ["meeting_id"],
  (one "first_state_of_workflow_id" "motion_workflow" "first_state_id").protecting,
  (many "motion_ids" "motion" "state_id").protecting,
  many "motion_recommendation_ids" "motion" "recommendation_id",
  (one "meeting_id" "meeting" "motion_state_ids").needed]

def motion : Collection := .declare "motion" [
  (plain "id" .number).needed,
  plain "number" .string,
  plain "sequential_number" .number,
  (plain "title" .string).needed,
  plain "text" (.html .strict),
  plain "amendment_paragraphs" .json,
  plain "reason" (.html .strict),
  plain "state_extension" .string,
  plain "recommendation_extension" .string,
  plain "created" .timestamp,
  plain "last_modified" .timestamp,
  (one "lead_motion_id" "motion" "amendment_ids").agreeing ["meeting_id"],
  (many "amendment_ids" "motion" "lead_motion_id").agreeing ["meeting_id"],
  (one "state_id" "motion_state" "motion_ids").needed.agreeing ["meeting_id"],
  (one "recommendation_id" "motion_state" "motion_recommendation_ids").agreeing ["meeting_id"],
  (one "agenda_item_id" "agenda_item" "content_object_id").cascading.agreeing ["meeting_id"],
  (many "projection_ids" "projection" "content_object_id").cascading.agreeing ["meeting_id"],
  (one "meeting_id" "meeting" "motion_ids").needed]

end MeetingLedger.Schema.Standard
