import GoSecs.Tracepack.Tlv

namespace Tracepack.Tlv

def coverage : Registry :=
  [(0x0001, .opt "capture_id" typeUUID),
   (0x0002, .opt "seq_first" typeU64),
   (0x0003, .opt "seq_last" typeU64),
   (0x0004, .opt "time_start" typeI64),
   (0x0005, .opt "time_end" typeI64)]

def redactionPolicy : Registry :=
  [(0x0001, .req "policy_id" typeUTF8),
   (0x0002, .req "policy_version" typeU64),
   (0x0003, .req "key_id" typeUTF8),
   (0x0004, .req "digest_algorithm" typeU8),
   (0x0005, .mk "encryption_algorithm" typeU8 false false 1 none),
   (0x0006, .mk "encryption_key_id" typeUTF8 false false 1 none)]

def redaction : Registry :=
  [(0x0001, .req "seq" typeU64),
   (0x0002, .opt "item_path" typeUTF8),
   (0x0003, .req "masked_ranges" typeBytes),
   (0x0004, .req "domain" typeUTF8),
   (0x0005, .req "digest" typeBytes),
   (0x0006, .mk "siv" typeBytes false false 1 none)]

def thinning : Registry :=
  [(0x0001, .mk "stream" typeU64 false true 1 none),
   (0x0002, .mk "function" typeU64 false true 1 none),
   (0x0003, .mk "source" typeUTF8 false true 1 none)]

def hsmsTimers : Registry :=
  [(1, .opt "T1" typeU64), (2, .opt "T2" typeU64), (3, .opt "T3" typeU64), (4, .opt "T4" typeU64),
   (5, .opt "T5" typeU64), (6, .opt "T6" typeU64), (7, .opt "T7" typeU64), (8, .opt "T8" typeU64)]

def packMetadata : Registry :=
  [(0x0002, .req "equipment_id" typeUTF8),
   (0x0003, .req "transport" typeU8),
   (0x0004, .req "capture_method" typeU8),
   (0x0005, .req "vantage" typeU8),
   (0x0006, .req "recorder" typeUTF8),
   (0x0007, .req "writer" typeUTF8),
   (0x0008, .many "classifier" typeUTF8),
   (0x0009, .req "time_source" typeU8),
   (0x000A, .opt "capture_origin_utc_ns" typeI64),
   (0x000B, .opt "capture_origin_mono_ns" typeI64),
   (0x000C, .opt "source_tz" typeUTF8),
   (0x000D, .opt "source_dialect" typeUTF8),
   (0x000E, .many "source_ref" typeUTF8),
   (0x000F, .many "max_frame_len" typeU64),
   (0x0010, .req "period_start" typeI64),
   (0x0011, .req "period_end" typeI64),
   (0x0012, .req "lifecycle_coverage" typeU8),
   (0x0013, .req "quality_evaluated" typeBool),
   (0x0015, .many "supersedes" typeUUID),
   (0x0016, .mk "coverage" typeTLV true false 0 (some coverage)),
   (0x0017, .opt "notes" typeUTF8),
   (0x0018, .req "pack_role" typeU8),
   (0x0019, .req "compaction_level" typeU8),
   (0x001A, .many "compacted_from" typeUUID),
   (0x001B, .req "recorder_instance_id" typeUUID),
   (0x001C, .opt "previous_capture_id" typeUUID),
   (0x001D, .opt "extract_filter" typeUTF8),
   (0x001E, .opt "site_id" typeUTF8),
   (0x001F, .opt "equipment_model" typeUTF8),
   (0x0020, .opt "equipment_sw_rev" typeUTF8),
   (0x0021, .opt "host_software" typeUTF8),
   (0x0022, .opt "host_endpoint" typeUTF8),
   (0x0023, .opt "equipment_endpoint" typeUTF8),
   (0x0024, .opt "equipment_connect_mode" typeU8),
   (0x0025, .opt "device_id" typeU64),
   (0x0026, .mk "hsms_timers" typeTLV false false 0 (some hsmsTimers)),
   (0x0027, .req "seq_start" typeU64),
   (0x0028, .opt "clock_step_tolerance_ns" typeU64),
   (0x0029, .opt "replacement_set_id" typeUUID),
   (0x002A, .opt "replacement_set_size" typeU64),
   (0x002B, .opt "replacement_set_index" typeU64),
   (0x002C, .opt "flush_interval_ns" typeU64),
   (0x002D, .opt "scope_generation" typeU64),
   (0x002E, .opt "publisher_epoch" typeU64),
   (0x002F, .opt "patch_base" typeUUID),
   (0x0031, .mk "redaction_policy" typeTLV false false 0 (some redactionPolicy)),
   (0x0032, .mk "redaction" typeTLV true false 0 (some redaction)),
   (0x0033, .mk "thinning" typeTLV true false 1 (some thinning)),
   (0x0034, .mk "recorder_instance_name" typeUTF8 false false 2 none),
   (0x0035, .mk "device" typeUTF8 false false 2 none)]

def transportEvent : Registry :=
  [(0x0001, .req "event" typeU8),
   (0x0002, .opt "prev_state" typeU8),
   (0x0003, .opt "cur_state" typeU8),
   (0x0004, .opt "cause" typeU8),
   (0x0005, .opt "cause_raw" typeUTF8),
   (0x0006, .opt "timer" typeU8),
   (0x0007, .opt "socket_role" typeU8),
   (0x0008, .opt "inferred" typeBool),
   (0x0009, .opt "primary_session_id" typeU64),
   (0x000A, .opt "primary_stream" typeU64),
   (0x000B, .opt "primary_function" typeU64),
   (0x000C, .opt "primary_system_bytes" typeBytes),
   (0x000D, .opt "boundary_kind" typeU8),
   (0x000E, .opt "boundary_seq_first" typeU64),
   (0x000F, .opt "boundary_seq_last" typeU64),
   (0x0010, .opt "gap_start" typeI64),
   (0x0011, .opt "gap_end" typeI64),
   (0x0012, .opt "detail" typeUTF8),
   (0x0013, .opt "clock_step_ns" typeI64)]

def annotation : Registry :=
  [(0x0001, .req "annotation_kind" typeU8),
   (0x0002, .opt "ref_capture_id" typeUUID),
   (0x0003, .opt "ref_seq_first" typeU64),
   (0x0004, .opt "ref_seq_last" typeU64),
   (0x0005, .opt "text" typeUTF8),
   (0x0006, .opt "raw" typeBytes),
   (0x0007, .opt "source_index" typeU64),
   (0x0008, .opt "source_offset" typeU64),
   (0x0009, .opt "source_len" typeU64)]

end Tracepack.Tlv
